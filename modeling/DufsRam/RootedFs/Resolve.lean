import DufsRam.Lib.Bisect
import DufsRam.RootedFs.Tree

/-!
# Resolved path keys

Model of `resolved_path_key_blocking` and the functions it calls (`rooted_fs.rs`, lines
852-947 and 998-1043), and what a key says about the tree it was computed in: its parent
is the deepest directory of the lexical parent that can be opened, its ancestors are
the directories that contain it, and its target is the directory the path names.

Results:
* `directoryAncestryFromRoot_spec`: the `..` walk lists the containing directories.
* `resolvedPathKey_spec`: the parts of a key.
* `resolved_keys_conflict`: keys of overlapping entries conflict.
-/

namespace DufsRam.RootedFs

/-- `unresolved_path_error` (lines 2737-2744). -/
def unresolvedPathError : ErrorKind → Bool
  | .notFound | .notADirectory | .permissionDenied => true
  | _ => false

/-- `MAX_DIRECTORY_ANCESTORS` (line 1006). -/
def maxDirectoryAncestors : ℕ := 4096

namespace Tree

variable (t : Tree)

/-- The probe of the first `n` components. -/
def openResolvedPathPrefix (components : Path) (n : ℕ) : Except ErrorKind FileIdentity :=
  t.openDirectoryFromRoot (components.take n)

/-- `resolve_deepest_parent_prefix` (lines 914-947). -/
def resolveDeepestParentPrefix (components : Path) : Except ErrorKind (FileIdentity × ℕ) :=
  if components = [] then .ok (t.root, 0)
  else
    match t.openDirectoryFromRoot components with
    | .ok directory => .ok (directory, components.length)
    | .error e =>
      if unresolvedPathError e then
        Bisect.bisect (t.openResolvedPathPrefix components) unresolvedPathError components.length
          0 components.length t.root
      else .error e

/-- The loop of `directory_ancestry_from_root` (lines 1010-1037), `seen` in root-first
    order. -/
def ancestryLoop : ℕ → FileIdentity → List FileIdentity → Except ErrorKind (List FileIdentity)
  | 0, _, _ => .error .invalidData
  | fuel + 1, current, seen =>
    if current = t.root then .ok (current :: seen)
    else
      match t.parentOf current with
      | none => .error .notADirectory
      | some parent =>
        if parent = current then .error .permissionDenied
        else ancestryLoop fuel parent (current :: seen)

/-- `directory_ancestry_from_root` (lines 998-1043). -/
def directoryAncestryFromRoot (directory : FileIdentity) : Except ErrorKind (List FileIdentity) :=
  t.ancestryLoop maxDirectoryAncestors directory []

/-- The directory an entry is, final component not followed (lines 879-898). -/
def directoryAt (d : FileIdentity) (name : String) : Option FileIdentity :=
  (t.lookup d name).filter t.isDirectory

/-- `resolved_path_key_blocking` (lines 852-906). -/
def resolvedPathKey (path : Path) : Except ErrorKind ResolvedPathKey := do
  match path.getLast? with
  | none => .error .invalidInput
  | some finalName =>
    let parentComponents := path.dropLast
    let (resolvedParent, resolvedComponents) ← t.resolveDeepestParentPrefix parentComponents
    let ancestors ← t.directoryAncestryFromRoot resolvedParent
    .ok {
      resolvedParent := ancestors.getLastD resolvedParent
      unresolvedTail := path.drop resolvedComponents
      ancestorDirectories := ancestors
      targetDirectory :=
        if resolvedComponents = parentComponents.length then t.directoryAt resolvedParent finalName
        else none }

/-! ## The parts of a key -/

/-- `d` is what the first `n` components open, and no longer part of the path opens. -/
structure DeepestPrefix (components : Path) (d : FileIdentity) (n : ℕ) : Prop where
  le_length : n ≤ components.length
  opens : t.openDirectoryFromRoot (components.take n) = .ok d
  maximal : ∀ m, n < m → m ≤ components.length →
    ∃ e, t.openDirectoryFromRoot (components.take m) = .error e

variable {t}

variable {components path : Path} {d : FileIdentity} {n : ℕ} {key kp kq : ResolvedPathKey}

theorem DeepestPrefix.unique {d' : FileIdentity} {n' : ℕ} (h : t.DeepestPrefix components d n)
    (h' : t.DeepestPrefix components d' n') :
    d = d' ∧ n = n' := by
  have hn : n = n' := by
    by_contra hne
    obtain hlt | hlt := Nat.lt_or_gt_of_ne hne
    · obtain ⟨e, he⟩ := h.maximal n' hlt h'.le_length
      rw [h'.opens] at he
      cases he
    · obtain ⟨e, he⟩ := h'.maximal n hlt h.le_length
      rw [h.opens] at he
      cases he
  subst hn
  exact ⟨Except.ok.inj (h.opens.symm.trans h'.opens), rfl⟩

theorem DeepestPrefix.of_opens (h : t.openDirectoryFromRoot components = .ok d) :
    t.DeepestPrefix components d components.length where
  le_length := le_rfl
  opens := by rw [List.take_length]; exact h
  maximal m hlt hle := absurd hle (by omega)

theorem resolveDeepestParentPrefix_spec (h : t.resolveDeepestParentPrefix components = .ok (d, n)) :
    t.DeepestPrefix components d n := by
  unfold resolveDeepestParentPrefix at h
  split_ifs at h with hn
  · obtain ⟨rfl, rfl⟩ := Prod.mk.inj (Except.ok.inj h)
    subst hn
    exact .of_opens rfl
  cases hf : t.openDirectoryFromRoot components with
  | ok dir =>
    simp only [hf] at h
    obtain ⟨rfl, rfl⟩ := Prod.mk.inj (Except.ok.inj h)
    exact .of_opens hf
  | error e =>
    simp only [hf] at h
    split_ifs at h
    have hp : 0 < components.length := List.length_pos_iff.mpr hn
    have he : ∃ e, t.openResolvedPathPrefix components components.length = .error e :=
      ⟨e, by rw [openResolvedPathPrefix, List.take_length]; exact hf⟩
    have hs : t.openResolvedPathPrefix components 0 = .ok t.root := rfl
    obtain ⟨hlt, ho, e', hnx⟩ := Bisect.bisect_spec (by omega) hp hs he h
    refine ⟨hlt.le, ho, ?_⟩
    -- One component further fails, so everything longer does.
    intro m hm _
    exact ⟨e', openDirectoryFromRoot_error_mono (List.take_prefix_take_left (by omega)) hnx⟩

theorem ancestryLoop_spec {fuel : ℕ} {cur : FileIdentity} {seen anc : List FileIdentity}
    (h : t.ancestryLoop fuel cur seen = .ok anc) :
    ∃ chain, anc = chain ++ seen ∧ (∀ a, a ∈ chain ↔ t.Contains a cur) ∧
      chain.getLast? = some cur ∧ t.root ∈ chain := by
  induction fuel generalizing cur seen with
  | zero => cases h
  | succ fuel ih =>
    rw [ancestryLoop] at h
    split_ifs at h with hr
    · refine ⟨[cur], (Except.ok.inj h).symm, ?_, rfl, List.mem_singleton.mpr hr.symm⟩
      intro a
      rw [hr, contains_root_iff, List.mem_singleton]
    cases hp : t.parentOf cur with
    | none => simp only [hp] at h; cases h
    | some p =>
      simp only [hp] at h
      split_ifs at h
      obtain ⟨chain, rfl, hm, -, ht⟩ := ih h
      refine ⟨chain ++ [cur], by simp, ?_, by simp, List.mem_append_left _ ht⟩
      intro a
      rw [contains_iff_of_parent hr hp, List.mem_append, List.mem_singleton, hm a]
      exact or_comm

/-- The ancestry lists the directories that contain the given one, which comes last; the
    root is among them. -/
theorem directoryAncestryFromRoot_spec {ancestors : List FileIdentity}
    (h : t.directoryAncestryFromRoot d = .ok ancestors) :
    (∀ a, a ∈ ancestors ↔ t.Contains a d) ∧ ancestors.getLast? = some d ∧
      t.root ∈ ancestors := by
  obtain ⟨chain, rfl, hs⟩ := ancestryLoop_spec h
  rw [List.append_nil]
  exact hs

/-- What a key says about the tree. -/
structure KeySpec (t : Tree) (path : Path) (key : ResolvedPathKey) (n : ℕ) : Prop where
  deepest : t.DeepestPrefix path.dropLast key.resolvedParent n
  tail : key.unresolvedTail = path.drop n
  ancestors : ∀ a, a ∈ key.ancestorDirectories ↔ t.Contains a key.resolvedParent
  root_mem : t.root ∈ key.ancestorDirectories
  target : ∃ name, path.getLast? = some name ∧ key.targetDirectory =
    if n = path.dropLast.length then t.directoryAt key.resolvedParent name else none

theorem resolvedPathKey_spec (h : t.resolvedPathKey path = .ok key) :
    ∃ n, KeySpec t path key n := by
  unfold resolvedPathKey at h
  cases hn : path.getLast? with
  | none => simp only [hn] at h; cases h
  | some finalName =>
    simp only [hn] at h
    cases hd : t.resolveDeepestParentPrefix path.dropLast with
    | error e => rw [hd] at h; cases h
    | ok found =>
      obtain ⟨d, n⟩ := found
      rw [hd] at h
      cases ha : t.directoryAncestryFromRoot d with
      | error e => simp only [bind, Except.bind, ha] at h; cases h
      | ok anc =>
        simp only [bind, Except.bind, ha] at h
        obtain ⟨hm, hl, ht⟩ := directoryAncestryFromRoot_spec ha
        have hp : anc.getLastD d = d := by
          rw [List.getLastD_eq_getLast?, hl]; rfl
        cases h
        refine ⟨n, ?_, rfl, ?_, ht, ?_⟩
        · rw [hp]; exact resolveDeepestParentPrefix_spec hd
        · rw [hp]; exact hm
        · rw [hp]
          exact ⟨finalName, hn, rfl⟩

/-! ## Overlapping entries -/

variable (t)

/-- The directory and the name of the entry a path names, final component not followed. -/
def physicalEntry (path : Path) : Option (FileIdentity × String) :=
  match path.getLast?, t.openDirectoryFromRoot path.dropLast with
  | some name, .ok d => some (d, name)
  | _, _ => none

/-- The ways in which a change at `p` can reach `q` through the directories of the tree. -/
inductive Overlap (p q : Path) : Prop
  /-- Both name one entry. -/
  | same {entry : FileIdentity × String} (hp : t.physicalEntry p = some entry)
      (hq : t.physicalEntry q = some entry)
  /-- `p` names a directory that contains the resolved parent of `q`. -/
  | contains {d e r : FileIdentity} {name : String} {n : ℕ}
      (hp : t.physicalEntry p = some (d, name)) (he : t.directoryAt d name = some e)
      (hq : t.DeepestPrefix q.dropLast r n) (h : t.Contains e r)
  /-- Below one directory, what is missing of `p` begins what is missing of `q`. -/
  | tail {d : FileIdentity} {m n : ℕ} (hp : t.DeepestPrefix p.dropLast d m)
      (hq : t.DeepestPrefix q.dropLast d n) (h : p.drop m <+: q.drop n)

/-- The keys a lease can hold: computed ones and the root key that stands in for the rest. -/
inductive IsKey : ResolvedPathKey → Prop
  | computed {path : Path} {key : ResolvedPathKey} (h : t.resolvedPathKey path = .ok key) :
      IsKey key
  | conservative : IsKey (conservativePathKey t.root)

variable {t}

theorem physicalEntry_eq_some {name : String} (h : t.physicalEntry path = some (d, name)) :
    path.getLast? = some name ∧ t.openDirectoryFromRoot path.dropLast = .ok d := by
  unfold physicalEntry at h
  split at h
  · next name' d' hn ho => cases h; exact ⟨hn, ho⟩
  · cases h

/-- A key whose path has an entry stops at the entry's directory. -/
theorem KeySpec.of_physicalEntry {name : String} (hk : KeySpec t path key n)
    (h : t.physicalEntry path = some (d, name)) :
    key.resolvedParent = d ∧ key.unresolvedTail = [name] ∧
      key.targetDirectory = t.directoryAt d name := by
  obtain ⟨hnm, ho⟩ := physicalEntry_eq_some h
  obtain ⟨hd, hn⟩ := hk.deepest.unique (.of_opens ho)
  have hp : path.dropLast ++ [name] = path :=
    List.dropLast_append_getLast? name hnm
  refine ⟨hd, ?_, ?_⟩
  · calc key.unresolvedTail = (path.dropLast ++ [name]).drop path.dropLast.length := by
          rw [hk.tail, hn, hp]
      _ = [name] := List.drop_left
  · obtain ⟨name', hn', ht⟩ := hk.target
    rw [hnm] at hn'
    cases hn'
    rw [ht, if_pos hn, hd]

theorem Overlap.conflict {p q : Path} {m : ℕ} (h : t.Overlap p q) (hp : KeySpec t p kp m)
    (hq : KeySpec t q kq n) : resolvedPathsConflict kp kq = true := by
  have hc : anchoredTailIsPrefix kp kq = true ∨ targetIsAncestor kp kq = true := by
    cases h with
    | @same e hep heq =>
      obtain ⟨hpd, hpt, -⟩ := hp.of_physicalEntry hep
      obtain ⟨hqd, hqt, -⟩ := hq.of_physicalEntry heq
      left
      rw [anchoredTailIsPrefix_iff, hpd, hqd, hpt, hqt]
      exact ⟨rfl, List.prefix_rfl⟩
    | contains hep he hd hcn =>
      obtain ⟨-, -, ht⟩ := hp.of_physicalEntry hep
      obtain ⟨hr, -⟩ := hd.unique hq.deepest
      right
      rw [targetIsAncestor_iff]
      exact ⟨_, ht.trans he, (hq.ancestors _).mpr (hr ▸ hcn)⟩
    | tail hdp hdq hpr =>
      obtain ⟨hpd, rfl⟩ := hdp.unique hp.deepest
      obtain ⟨hqd, rfl⟩ := hdq.unique hq.deepest
      left
      rw [anchoredTailIsPrefix_iff, hp.tail, hq.tail]
      exact ⟨hpd.symm.trans hqd, hpr⟩
  unfold resolvedPathsConflict
  obtain h | h := hc <;> simp [h]

/-- Keys conflict through nothing but an overlap. -/
theorem overlap_of_contains {p q : Path} {m : ℕ} (hp : KeySpec t p kp m) (hq : KeySpec t q kq n)
    (h : anchoredTailIsPrefix kp kq = true ∨ targetIsAncestor kp kq = true) : t.Overlap p q := by
  obtain h | h := h
  · obtain ⟨hpr, htl⟩ := anchoredTailIsPrefix_iff.mp h
    rw [hp.tail, hq.tail] at htl
    exact .tail (hpr ▸ hp.deepest) hq.deepest htl
  obtain ⟨e, he, hm⟩ := targetIsAncestor_iff.mp h
  obtain ⟨name, hn, ht⟩ := hp.target
  split_ifs at ht with hf
  · have ho := hp.deepest.opens
    rw [hf, List.take_length] at ho
    have hen : t.physicalEntry p = some (kp.resolvedParent, name) := by
      simp [physicalEntry, hn, ho]
    exact .contains hen (ht.symm.trans he) hq.deepest ((hq.ancestors e).mp hm)
  · rw [ht] at he; cases he

theorem conflict_iff_overlap {p q : Path} (hp : t.resolvedPathKey p = .ok kp)
    (hq : t.resolvedPathKey q = .ok kq) :
    resolvedPathsConflict kp kq = true ↔ t.Overlap p q ∨ t.Overlap q p := by
  obtain ⟨m, hp⟩ := resolvedPathKey_spec hp
  obtain ⟨n, hq⟩ := resolvedPathKey_spec hq
  constructor
  · intro h
    simp only [resolvedPathsConflict, Bool.or_eq_true] at h
    obtain ((h | h) | h) | h := h
    · exact .inl (overlap_of_contains hp hq (.inl h))
    · exact .inr (overlap_of_contains hq hp (.inl h))
    · exact .inl (overlap_of_contains hp hq (.inr h))
    · exact .inr (overlap_of_contains hq hp (.inr h))
  · rintro (h | h)
    · exact h.conflict hp hq
    · rw [resolvedPathsConflict_comm]; exact h.conflict hq hp

/-- The root key names a directory on the ancestor chain of every key. -/
theorem IsKey.conflict_conservative (h : t.IsKey key) :
    resolvedPathsConflict (conservativePathKey t.root) key = true := by
  have hm : t.root ∈ key.ancestorDirectories := by
    cases h with
    | computed h =>
      obtain ⟨n, hk⟩ := resolvedPathKey_spec h
      exact hk.root_mem
    | conservative => exact List.mem_singleton_self _
  have ht : targetIsAncestor (conservativePathKey t.root) key = true :=
    targetIsAncestor_iff.mpr ⟨t.root, rfl, hm⟩
  simp [resolvedPathsConflict, ht]

/-- **Keys of overlapping entries conflict**, whichever side asks, and the root key that
    stands in for an unresolved path conflicts with every key. -/
theorem resolved_keys_conflict (t : Tree) :
    (∀ p q kp kq, t.resolvedPathKey p = .ok kp → t.resolvedPathKey q = .ok kq →
      t.Overlap p q ∨ t.Overlap q p →
      resolvedPathsConflict kp kq = true ∧ resolvedPathsConflict kq kp = true) ∧
    (∀ key, t.IsKey key → resolvedPathsConflict (conservativePathKey t.root) key = true ∧
      resolvedPathsConflict key (conservativePathKey t.root) = true) := by
  refine ⟨?_, ?_⟩
  · intro p q kp kq hp hq ho
    have hc := (conflict_iff_overlap hp hq).mpr ho
    exact ⟨hc, by rw [resolvedPathsConflict_comm]; exact hc⟩
  · intro key hk
    have hc := hk.conflict_conservative
    exact ⟨hc, by rw [resolvedPathsConflict_comm]; exact hc⟩

end Tree

end DufsRam.RootedFs
