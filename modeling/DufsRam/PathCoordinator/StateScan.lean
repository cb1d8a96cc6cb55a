import DufsRam.Lib.Collect
import DufsRam.PathCoordinator.Coordinator
import DufsRam.StateStore.BlockingPaths

/-!
# Scanning durable state for conflicting paths

Model of `StatePathScanner` (`path_coordinator.rs`, lines 52-58 and 378-485) and of the two
scans that use it, `has_persisted_path_conflict` and `has_persisted_path_descendant`
(`server.rs`, lines 724-790). The tables may change between two pages. What paths resolve to
stays as it is during a scan, but the blocking task that resolves a page may fail.

Results:
* `pageConflicts_eq`: resolving a page at once decides what deciding path by path would.
* `scanPages_eq`: the answer is the disjunction over the rows of all pages.
* `scan_answers`: what a scan over changing tables yields and answers.
* `persisted_descendants_scanned`: the scan for strict descendants.
-/

namespace DufsRam.PathCoordinator

open Collect StateStore

/-! ## Relations -/

/-- `StatePathScanRelation` (lines 46-50). -/
inductive StatePathScanRelation where
  | symmetricConflict
  | strictDescendant
deriving DecidableEq

/-- `resolved_path_strictly_contains` (lines 652-661). -/
def resolvedPathStrictlyContains (ancestor descendant : ResolvedPathKey) : Bool :=
  decide (ancestor.unresolvedTail.length < descendant.unresolvedTail.length) &&
    anchoredTailIsPrefix ancestor descendant || targetIsAncestor ancestor descendant

/-- `path_strictly_contains` (lines 590-593). -/
def pathStrictlyContains (ancestor descendant : LeaseKey) : Bool :=
  decide (ancestor.lexical ≠ descendant.lexical) &&
    startsWith descendant.lexical ancestor.lexical ||
    resolvedPathStrictlyContains ancestor.resolved descendant.resolved

/-- `paths_identify_same_entry` (lines 595-599). -/
def pathsIdentifySameEntry (left right : LeaseKey) : Bool :=
  decide (left.lexical = right.lexical) ||
    decide (left.resolved.resolvedParent = right.resolved.resolvedParent) &&
      decide (left.resolved.unresolvedTail = right.resolved.unresolvedTail)

/-- Does one candidate stand in the relation to the sources (lines 464-483)? -/
def StatePathScanRelation.holds (relation : StatePathScanRelation) (sources : List LeaseKey)
    (candidate : LeaseKey) (allowsExactReplacement : Bool) : Bool :=
  match relation with
  | .symmetricConflict => sources.any fun source => pathKeysConflict source candidate
  | .strictDescendant =>
    match sources with
    | [] => false
    | ancestor :: _ =>
      if pathsIdentifySameEntry ancestor candidate then !allowsExactReplacement
      else pathStrictlyContains ancestor candidate

/-! ## The scanner -/

/-- `Component::Normal`. -/
def isNormalComponent (component : String) : Bool :=
  decide (component ≠ "") && decide (component ≠ ".") && decide (component ≠ "..") &&
    component.toList.all fun c => decide (c ≠ '/') && decide (c ≠ '\x00')

/-- `resolve_state_path` (`rooted_fs.rs`, lines 548-570). -/
def resolveStatePath (path : Path) : Option Path :=
  if path ≠ [] ∧ path.all isNormalComponent then some path else none

/-- `StatePathScanner` (lines 52-58). -/
structure StatePathScanner where
  sources : List Path
  resolvedSources : Option (List LeaseKey)
  relation : StatePathScanRelation
deriving DecidableEq

variable {FS : Type} (r : Resolver FS) (fs : FS)

/-- `resolved_path_keys_for_state_scan` (`rooted_fs.rs`, lines 824-850); `failed` if the
    blocking task fails. -/
def resolvedPathKeysForStateScan (failed : Bool) (paths : List Path) :
    Option (List ResolvedPathKey) :=
  if failed then none else paths.mapM (r.resolvedPathKey fs)

/-- The candidate of a stored path, before its key is known (lines 388-395). -/
def candidateOf (statePath : StateBlockingPath Path) : Option (Path × Bool) :=
  (resolveStatePath statePath.path).map fun lexical => (lexical, statePath.allowsExactReplacement)

/-- The sources that the batch has to resolve (lines 397-406). -/
def StatePathScanner.toResolve (scanner : StatePathScanner) : List Path :=
  if scanner.resolvedSources.isNone then scanner.sources else []

/-- The batch of a page and the comparison (lines 397-483). -/
def StatePathScanner.compare (scanner : StatePathScanner) (failed : Bool)
    (candidates : List (Path × Bool)) : Bool × StatePathScanner :=
  match resolvedPathKeysForStateScan r fs failed
      (scanner.toResolve ++ candidates.map Prod.fst) with
  | none => (true, scanner)
  | some resolved =>
    let sources := scanner.resolvedSources.getD
      (List.zipWith LeaseKey.mk scanner.sources resolved)
    let candidateKeys := candidates.zip (resolved.drop scanner.toResolve.length)
    (candidateKeys.any fun candidate =>
        scanner.relation.holds sources ⟨candidate.1.1, candidate.2⟩ candidate.1.2,
      { scanner with resolvedSources := some sources })

/-- `page_conflicts` (lines 383-484). -/
def StatePathScanner.pageConflicts (scanner : StatePathScanner) (failed : Bool)
    (statePaths : List (StateBlockingPath Path)) : Bool × StatePathScanner :=
  if statePaths = [] then (false, scanner)
  else
    match statePaths.mapM candidateOf with
    | none => (true, scanner)
    | some candidates => scanner.compare r fs failed candidates

/-- A scan under way: its scanner, its cursor and, at the end, its answer. -/
structure Scan where
  scanner : StatePathScanner
  after : Option StatePathCursor
  answer : Option Bool
deriving DecidableEq

/-- The scan of `has_persisted_path_conflict` before its first page (`server.rs`, lines
    737-741). -/
def Scan.conflicts (paths : List Path) : Scan := ⟨⟨paths, none, .symmetricConflict⟩, none, none⟩

/-- The scan of `has_persisted_path_descendant` before its first page (`server.rs`, lines
    770-774). -/
def Scan.descendants (path : Path) : Scan := ⟨⟨[path], none, .strictDescendant⟩, none, none⟩

/-- The body of both loops (`server.rs`, lines 743-755 and 776-788). -/
def Scan.nextPage (limit : ℕ) (tables : StateTables Path) (scan : Scan) (failed : Bool) : Scan :=
  let page := queryStateBlockingPaths tables scan.after limit
  match scan.scanner.pageConflicts r fs failed page.paths with
  | (true, _) => { scan with answer := some true }
  | (false, scanner) =>
    match page.next with
    | none => { scan with scanner := scanner, answer := some false }
    | some next => { scan with scanner := scanner, after := some next }

/-- Both loops from the `n`-th query on: `tables n` is what that query reads, and `failed n`
    whether its paths cannot be resolved. -/
def scanPages (limit : ℕ) (tables : ℕ → StateTables Path) (failed : ℕ → Bool) :
    ℕ → ℕ → Scan → Option Bool
  | 0, _, _ => none
  | fuel + 1, n, scan =>
    let scan := scan.nextPage r fs limit (tables n) (failed n)
    match scan.answer with
    | some answer => some answer
    | none => scanPages limit tables failed fuel (n + 1) scan

/-- `has_persisted_path_conflict` (`server.rs`, lines 729-757). -/
def hasPersistedPathConflict (limit : ℕ) (tables : ℕ → StateTables Path) (failed : ℕ → Bool)
    (fuel : ℕ) (paths : List Path) : Option Bool :=
  scanPages r fs limit tables failed fuel 0 (.conflicts paths)

/-- `has_persisted_path_descendant` (`server.rs`, lines 762-790). -/
def hasPersistedPathDescendant (limit : ℕ) (tables : ℕ → StateTables Path) (failed : ℕ → Bool)
    (fuel : ℕ) (path : Path) : Option Bool :=
  scanPages r fs limit tables failed fuel 0 (.descendants path)

variable {r fs}

/-! ## One page -/

variable (r fs) in
/-- The keys of the sources, if all of them resolve. -/
def sourceKeys (sources : List Path) : Option (List LeaseKey) :=
  (sources.mapM (r.resolvedPathKey fs)).map (List.zipWith LeaseKey.mk sources)

variable (r fs) in
/-- The decision for one path, which fails closed: what does not resolve blocks. -/
def blocks (relation : StatePathScanRelation) (sources : List Path)
    (statePath : StateBlockingPath Path) : Bool :=
  match resolveStatePath statePath.path with
  | none => true
  | some lexical =>
    match sourceKeys r fs sources, r.resolvedPathKey fs lexical with
    | some keys, some key => relation.holds keys ⟨lexical, key⟩ statePath.allowsExactReplacement
    | _, _ => true

variable (r fs) in
/-- The keys that a scanner has kept are those of its sources. -/
def StatePathScanner.Valid (scanner : StatePathScanner) : Prop :=
  ∀ keys, scanner.resolvedSources = some keys → sourceKeys r fs scanner.sources = some keys

variable {relation : StatePathScanRelation} {sources : List Path}
  {statePaths : List (StateBlockingPath Path)} {scanner : StatePathScanner}

theorem any_blocks_eq {keys : List LeaseKey} (hk : sourceKeys r fs sources = some keys)
    {cands : List (Path × Bool)} {res : List ResolvedPathKey}
    (hc : List.Forall₂ (fun path cand => candidateOf path = some cand) statePaths cands)
    (hrs : List.Forall₂ (fun cand key => r.resolvedPathKey fs cand.1 = some key) cands res) :
    statePaths.any (blocks r fs relation sources) = (cands.zip res).any fun cand =>
      relation.holds keys ⟨cand.1.1, cand.2⟩ cand.1.2 := by
  induction hc generalizing res with
  | nil => simp
  | @cons path cand ps cands hcn _ ih =>
    cases hrs with
    | cons hky hr =>
      obtain ⟨lexical, hl, rfl⟩ := Option.map_eq_some_iff.mp hcn
      rw [List.any_cons, List.zip_cons_cons, List.any_cons, ih hr]
      simp [blocks, hl, hk, hky]

theorem any_blocks_of_unresolved {cands : List (Path × Bool)}
    (hc : List.Forall₂ (fun path cand => candidateOf path = some cand)
      statePaths cands) {cand : Path × Bool} (hm : cand ∈ cands)
    (hk : r.resolvedPathKey fs cand.1 = none) :
    statePaths.any (blocks r fs relation sources) = true := by
  induction hc with
  | nil => cases hm
  | @cons path cand' ps cands hcn _ ih =>
    rw [List.any_cons, Bool.or_eq_true]
    obtain rfl | hm := List.mem_cons.mp hm
    · obtain ⟨lexical, hl, rfl⟩ := Option.map_eq_some_iff.mp hcn
      refine .inl ?_
      simp only [blocks, hl, hk]
      cases sourceKeys r fs sources <;> rfl
    · exact .inr (ih hm)

/-- Sources that do not resolve block every page that is not empty. -/
theorem any_blocks_of_sources (hs : sourceKeys r fs sources = none) (hne : statePaths ≠ []) :
    statePaths.any (blocks r fs relation sources) = true := by
  obtain ⟨path, hp⟩ := List.exists_mem_of_ne_nil _ hne
  refine List.any_eq_true.mpr ⟨path, hp, ?_⟩
  simp only [blocks, hs]
  split <;> rfl

/-- What the batch of a page resolves to. -/
theorem resolved_batch (hv : scanner.Valid r fs) (cands : List (Path × Bool)) :
    (sourceKeys r fs scanner.sources = none ∧ scanner.compare r fs false cands = (true, scanner)) ∨
    (∃ cand ∈ cands, r.resolvedPathKey fs cand.1 = none ∧
      scanner.compare r fs false cands = (true, scanner)) ∨
    ∃ keys res, sourceKeys r fs scanner.sources = some keys ∧
      List.Forall₂ (fun cand key => r.resolvedPathKey fs cand.1 = some key) cands res ∧
      scanner.compare r fs false cands =
        ((cands.zip res).any fun cand =>
            scanner.relation.holds keys ⟨cand.1.1, cand.2⟩ cand.1.2,
          { scanner with resolvedSources := some keys }) := by
  unfold StatePathScanner.compare resolvedPathKeysForStateScan
  simp only [Bool.false_eq_true, if_false, List.mapM_append, Option.bind_eq_bind]
  cases hc : (cands.map Prod.fst).mapM (r.resolvedPathKey fs) with
  | none =>
    obtain ⟨path, hp, hn⟩ := mapM_eq_none_iff.mp hc
    obtain ⟨cand, hcn, rfl⟩ := List.mem_map.mp hp
    refine .inr (.inl ⟨cand, hcn, hn, ?_⟩)
    simp
  | some res =>
    have hf := List.forall₂_map_left_iff.mp (mapM_eq_some_iff.mp hc)
    cases hk : scanner.resolvedSources with
    | some keys =>
      refine .inr (.inr ⟨keys, res, hv keys hk, hf, ?_⟩)
      simp [StatePathScanner.toResolve, hk]
    | none =>
      cases hs : scanner.sources.mapM (r.resolvedPathKey fs) with
      | none =>
        refine .inl ⟨by simp [sourceKeys, hs], ?_⟩
        simp [StatePathScanner.toResolve, hk, hs]
      | some resolvedSources =>
        have hl := (mapM_eq_some_iff.mp hs).length_eq
        refine .inr (.inr ⟨List.zipWith LeaseKey.mk scanner.sources resolvedSources, res,
          by simp [sourceKeys, hs], hf, ?_⟩)
        have hz : List.zipWith LeaseKey.mk scanner.sources (resolvedSources ++ res) =
            List.zipWith LeaseKey.mk scanner.sources resolvedSources := by
          conv_lhs => rw [← List.append_nil scanner.sources]
          rw [List.zipWith_append hl, List.zipWith_nil_left, List.append_nil]
        simp [StatePathScanner.toResolve, hk, hs, hl, hz]

/-- Resolving a page at once decides what deciding path by path would. -/
theorem pageConflicts_eq (hv : scanner.Valid r fs) (statePaths : List (StateBlockingPath Path)) :
    (scanner.pageConflicts r fs false statePaths).1 =
      statePaths.any (blocks r fs scanner.relation scanner.sources) := by
  unfold StatePathScanner.pageConflicts
  split_ifs with he
  · simp [he]
  cases hc : statePaths.mapM candidateOf with
  | none =>
    obtain ⟨path, hp, hn⟩ := mapM_eq_none_iff.mp hc
    refine (List.any_eq_true.mpr ⟨path, hp, ?_⟩).symm
    simp only [blocks, Option.map_eq_none_iff.mp hn]
  | some cands =>
    have hf := mapM_eq_some_iff.mp hc
    obtain ⟨hs, heq⟩ | ⟨cand, hm, hn, heq⟩ | ⟨keys, res, hk, hr, heq⟩ :=
      resolved_batch hv cands
    all_goals show (scanner.compare r fs false cands).1 = _
    · rw [any_blocks_of_sources hs he, heq]
    · rw [any_blocks_of_unresolved hf hm hn, heq]
    · rw [any_blocks_eq hk hf hr, heq]

/-- A page that cannot be resolved blocks. -/
theorem pageConflicts_failed (scanner : StatePathScanner) (hne : statePaths ≠ []) :
    (scanner.pageConflicts r fs true statePaths).1 = true := by
  unfold StatePathScanner.pageConflicts
  rw [if_neg hne]
  cases statePaths.mapM candidateOf with
  | none => rfl
  | some cands => simp [StatePathScanner.compare, resolvedPathKeysForStateScan]

/-- A page that does not block has been compared path by path, and the scanner goes on with
    the same sources. -/
theorem pageConflicts_false {scanner' : StatePathScanner} (hv : scanner.Valid r fs)
    {failed : Bool} (h : scanner.pageConflicts r fs failed statePaths = (false, scanner')) :
    statePaths.any (blocks r fs scanner.relation scanner.sources) = false ∧
      scanner'.sources = scanner.sources ∧ scanner'.relation = scanner.relation ∧
      scanner'.Valid r fs := by
  by_cases he : statePaths = []
  · rw [StatePathScanner.pageConflicts, if_pos he] at h
    cases h
    exact ⟨by simp [he], rfl, rfl, hv⟩
  cases failed with
  | true =>
    have ht : (scanner.pageConflicts r fs true statePaths).1 = true :=
      pageConflicts_failed scanner he
    rw [h] at ht
    cases ht
  | false =>
    refine ⟨by rw [← pageConflicts_eq hv, h], ?_⟩
    rw [StatePathScanner.pageConflicts, if_neg he] at h
    cases hc : statePaths.mapM candidateOf with
    | none =>
      rw [hc] at h
      cases h
    | some cands =>
      rw [hc] at h
      change scanner.compare r fs false cands = _ at h
      obtain ⟨-, heq⟩ | ⟨cand, -, -, heq⟩ | ⟨keys, res, hky, -, heq⟩ :=
        resolved_batch hv cands
      · rw [heq] at h
        cases h
      · rw [heq] at h
        cases h
      · rw [heq] at h
        obtain ⟨-, rfl⟩ := Prod.mk.inj h
        exact ⟨rfl, rfl, fun _ hk => by cases hk; exact hky⟩

/-- A page blocks because one of its paths does, or because it could not be resolved. -/
theorem pageConflicts_true (hv : scanner.Valid r fs) {failed : Bool}
    (h : (scanner.pageConflicts r fs failed statePaths).1 = true) :
    failed = true ∨ statePaths.any (blocks r fs scanner.relation scanner.sources) = true := by
  cases failed with
  | true => exact .inl rfl
  | false => exact .inr (by rw [← pageConflicts_eq hv, h])

/-! ## The scan -/

section Scan

variable {limit : ℕ} {tables : ℕ → StateTables Path} {failed : ℕ → Bool}

variable (r fs) in
/-- Does some row of the pages block? -/
def pagesBlock (scanner : StatePathScanner)
    (pages : List (List (StatePathCursor × StateBlockingPath Path))) : Bool :=
  pages.flatten.any fun entry => blocks r fs scanner.relation scanner.sources entry.2

theorem any_map_snd {κ ρ : Type} (l : List (κ × ρ)) (p : ρ → Bool) :
    (l.map Prod.snd).any p = l.any fun e => p e.2 := by
  rw [List.any_map]
  rfl

theorem pagesBlock_cons {scanner : StatePathScanner}
    {rows : List (StatePathCursor × StateBlockingPath Path)}
    {rest : List (List (StatePathCursor × StateBlockingPath Path))} :
    pagesBlock r fs scanner (rows :: rest) =
      ((rows.map Prod.snd).any (blocks r fs scanner.relation scanner.sources) ||
        pagesBlock r fs scanner rest) := by
  rw [pagesBlock, pagesBlock, List.flatten_cons, List.any_append, any_map_snd]

/-- The answer of a scan is the disjunction over the rows of all its pages, unless a page
    could not be resolved. -/
theorem scanPages_eq {fuel n : ℕ} {scanner : StatePathScanner} (hv : scanner.Valid r fs)
    {aft : Option StatePathCursor}
    {ps : List (List (StatePathCursor × StateBlockingPath Path))}
    (h : Keyset.scan limit (fun i => (tables i).statePaths) fuel n aft = some ps) :
    ∃ a, scanPages r fs limit tables failed fuel n ⟨scanner, aft, none⟩ = some a ∧
      (pagesBlock r fs scanner ps = true → a = true) ∧
      (a = true → (∃ i < ps.length, failed (n + i) = true) ∨
        pagesBlock r fs scanner ps = true) := by
  induction fuel generalizing n scanner aft ps with
  | zero => cases h
  | succ fuel ih =>
    simp only [scanPages, Scan.nextPage, queryStateBlockingPaths]
    generalize hr : Keyset.page limit aft (tables n).statePaths = rows
    cases hp : scanner.pageConflicts r fs (failed n) (rows.map Prod.snd) with
    | mk verdict scanner' =>
    have ht : ∀ rest, verdict = true → (∃ i < (rows :: rest).length, failed (n + i) = true) ∨
        pagesBlock r fs scanner (rows :: rest) = true := by
      rintro rest rfl
      rw [pagesBlock_cons, Bool.or_eq_true]
      obtain hf | hbl := pageConflicts_true hv (congrArg Prod.fst hp)
      · exact .inl ⟨0, by simp, hf⟩
      · exact .inr (.inl hbl)
    cases hn : Keyset.next limit rows with
    | none =>
      rw [Keyset.scan_last (by rw [hr, hn]), hr] at h
      cases h
      cases verdict with
      | true => exact ⟨true, rfl, fun _ => rfl, ht []⟩
      | false =>
        obtain ⟨hc, -⟩ := pageConflicts_false hv hp
        refine ⟨false, rfl, fun hb => ?_, fun h => by cases h⟩
        rw [pagesBlock_cons, hc] at hb
        simp [pagesBlock] at hb
    | some c =>
      rw [Keyset.scan_next (by rw [hr, hn]), hr] at h
      obtain ⟨rest, hrs, rfl⟩ := Option.map_eq_some_iff.mp h
      cases verdict with
      | true => exact ⟨true, rfl, fun _ => rfl, ht rest⟩
      | false =>
        obtain ⟨hc, hsr, hrl, hv'⟩ := pageConflicts_false hv hp
        obtain ⟨a, hsc, hs, hcm⟩ := ih hv' hrs
        have hsm : pagesBlock r fs scanner' rest = pagesBlock r fs scanner (rows :: rest) := by
          rw [pagesBlock_cons, hc, Bool.false_or, pagesBlock, pagesBlock, hsr, hrl]
        rw [hsm] at hs hcm
        refine ⟨a, hsc, hs, fun ha => ?_⟩
        obtain ⟨i, hi, hf⟩ | hb := hcm ha
        · refine .inl ⟨i + 1, by simpa using hi, ?_⟩
          rwa [show n + (i + 1) = n + 1 + i by omega]
        · exact .inr hb

variable (r fs) in
/-- What a scan over changing tables yields and answers. -/
structure Scanned (relation : StatePathScanRelation) (tables : ℕ → StateTables Path)
    (failed : ℕ → Bool) (sources : List Path)
    (pages : List (List (StatePathCursor × StateBlockingPath Path))) (answer : Bool) : Prop where
  nodup : (pages.flatten.map Prod.fst).Nodup
  present : ∀ entry ∈ pages.flatten, ∃ i < pages.length, entry ∈ (tables i).statePaths.rows
  once : ∀ cursor, (∀ i < pages.length, ∃ entry, (cursor, entry) ∈ (tables i).statePaths.rows) →
    (pages.flatten.map Prod.fst).count cursor = 1
  blocked : ∀ cursor, (∀ i < pages.length, ∃ entry, (cursor, entry) ∈ (tables i).statePaths.rows ∧
    blocks r fs relation sources entry = true) → answer = true
  blocking : answer = true → (∃ i < pages.length, failed i = true) ∨
    ∃ entry ∈ pages.flatten, blocks r fs relation sources entry.2 = true

theorem scan_answers (hl : 1 ≤ limit) (relation : StatePathScanRelation)
    (tables : ℕ → StateTables Path) (failed : ℕ → Bool) (sources : List Path) :
    ∃ fuel ps answer, Keyset.scan limit (fun i => (tables i).statePaths) fuel 0 none = some ps ∧
      scanPages r fs limit tables failed fuel 0 ⟨⟨sources, none, relation⟩, none, none⟩ =
        some answer ∧
      Scanned r fs relation tables failed sources ps answer := by
  obtain ⟨fuel, ps, hs⟩ :=
    Keyset.scan_terminates limit (fun i => (tables i).statePaths) 0 none
  have hc := Keyset.scan_spec hl hs
  have hv : (⟨sources, none, relation⟩ : StatePathScanner).Valid r fs := fun _ h => by cases h
  obtain ⟨answer, han, hsn, hcm⟩ := scanPages_eq hv hs
  have hn : (ps.flatten.map Prod.fst).Nodup :=
    List.pairwise_map.mpr (hc.ascending.imp fun h => h.ne)
  have hp : ∀ ent ∈ ps.flatten, ∃ i < ps.length, ent ∈ (tables i).statePaths.rows := by
    intro ent he
    simpa using hc.present ent he
  refine ⟨fuel, ps, answer, hs, han, hn, hp, ?_, ?_, ?_⟩
  · intro c ha
    obtain ⟨ent, he⟩ := hc.complete c rfl (by simpa using ha)
    exact List.count_eq_one_of_mem hn (List.mem_map.mpr ⟨_, he, rfl⟩)
  · intro c ha
    obtain ⟨ent, he⟩ := hc.complete c rfl fun i hi => by
      obtain ⟨ent, hm, -⟩ := ha i hi
      exact ⟨ent, by simpa using hm⟩
    obtain ⟨i, hi, hm⟩ := hp _ he
    obtain ⟨entry', hm', hb⟩ := ha i hi
    -- A table has one row under a cursor.
    have hsm : ent = entry' := by
      have hg := Table.get_eq_some_iff.mpr hm
      rw [Table.get_eq_some_iff.mpr hm'] at hg
      exact (Option.some.inj hg).symm
    rw [← hsm] at hb
    exact hsn (List.any_eq_true.mpr ⟨_, he, hb⟩)
  · intro ht
    obtain ⟨i, hi, hf⟩ | hbl := hcm ht
    · exact .inl ⟨i, hi, by simpa using hf⟩
    · exact .inr (List.any_eq_true.mp hbl)

/-- The scan for what a fresh upload would bury: it answers "descendant" if a row that is there all
    the time lies strictly below the path, or is at the path and may not be replaced, and only if
    a row on a page does, or a page could not be resolved. -/
theorem persisted_descendants_scanned (hl : 1 ≤ limit) (tables : ℕ → StateTables Path)
    (failed : ℕ → Bool) (path : Path) : ∃ fuel ps answer,
      Keyset.scan limit (fun i => (tables i).statePaths) fuel 0 none = some ps ∧
      hasPersistedPathDescendant r fs limit tables failed fuel path = some answer ∧
      Scanned r fs .strictDescendant tables failed [path] ps answer :=
  scan_answers hl .strictDescendant tables failed [path]

end Scan

end DufsRam.PathCoordinator
