import DufsRam.PathCoordinator.StateScan
import DufsRam.RootedFs.Mutation
import DufsRam.StateStore.PurgeHistory
import DufsRam.StateStore.UploadHistory

/-!
# Admission of a mutation against durable state

Leases, the tables `upload_sessions` and `purge_jobs` with all their commands, the scans that lease
holders make before they commit (`has_persisted_path_conflict`, `server.rs`, lines 724-757), page by
page and interleaved in any way, and the changes they make to the file system. A lease is granted on
the keys that its paths have then, when they conflict with no lease that is held, as `try_acquire`
does; its number is a name of the model. A holder scans before it changes anything (`delete.rs`,
line 53, and `browser_api.rs`, lines 828 and 1333). A scan whose query fails has no answer and is
one that stops.

Results:
* `Guarded.step`: what a scan has passed stays clear while its lease is held and its holder has
  changed nothing.
* `persisted_paths_scanned`: what a scan yields and what its answer means.
* `transient_row_own_intent_and_moved_link`: what it does not mean.
-/

namespace DufsRam.PathCoordinator

open Collect StateStore

/-! ## The system -/

/-- Leases with their keys, tables and the scans by their lease. The holders of the leases in
    `mutated` have changed the file system. `sessionLease` and `jobLease` are ghost state: the lease
    under which the present row of a key was inserted. -/
structure Admission (FS : Type) where
  fs : FS
  nextLease : ℕ
  leases : Table ℕ (List LeaseKey)
  mutated : List ℕ
  tables : StateTables Path
  scans : Table ℕ Scan
  sessionLease : UploadSessionKey → Option ℕ
  jobLease : PurgeJobKey → Option ℕ

/-- What the store and the scan are configured with. -/
structure AdmissionConfig where
  uploadLimits : UploadLimits
  purgeLimits : PurgeLimits
  pageLimit : ℕ

inductive AdmissionEvent (FS : Type) where
  | acquire (paths : List Path)
  | release (lease : ℕ)
  | mutate (lease : ℕ) (fs : FS)
  | upload (lease : Option ℕ) (command : UploadCommand Path)
  | purge (lease : Option ℕ) (command : PurgeCommand Path)
  | startScan (lease : ℕ)
  | page (lease : ℕ) (failed : Bool)

/-- Does the command insert the row that is under the key afterwards? A save may sweep the
    old row before. -/
def uploadInserts (limits : UploadLimits) (sessions : UploadSessions Path)
    (command : UploadCommand Path) (key : UploadSessionKey) : Bool :=
  (sessions.get key).isNone || command.removes limits sessions key

def purgeInserts (jobs : PurgeJobs Path) (command : PurgeCommand Path) (key : PurgeJobKey) : Bool :=
  (jobs.get key).isNone || command.removes jobs key

variable {FS : Type} (r : Resolver FS) (fs : FS)

/-- The keys of a lease on the paths. -/
def Resolver.leaseKeys (paths : List Path) : List LeaseKey :=
  paths.map fun path => ⟨path, r.keyOf fs path⟩

namespace Admission

/-- One step. A scan that reads a page has not answered yet. -/
def step (config : AdmissionConfig) (s : Admission FS) : AdmissionEvent FS → Option (Admission FS)
  | .acquire paths =>
    let keys := r.leaseKeys s.fs paths
    if s.leases.any fun _ held => pathsConflict held keys then none
    else some { s with nextLease := s.nextLease + 1, leases := s.leases.put s.nextLease keys }
  | .release lease =>
    some { s with leases := s.leases.erase lease, scans := s.scans.erase lease }
  | .mutate lease fs =>
    (s.leases.get lease).map fun _ =>
      { s with fs := fs, mutated := lease :: s.mutated }
  | .upload lease command =>
    some
      { s with
        tables := { s.tables with
          sessions := command.run config.uploadLimits s.tables.sessions }
        sessionLease := fun key =>
          if uploadInserts config.uploadLimits s.tables.sessions command key then lease
          else s.sessionLease key }
  | .purge lease command =>
    some
      { s with
        tables := { s.tables with jobs := command.run config.purgeLimits s.tables.jobs }
        jobLease := fun key =>
          if purgeInserts s.tables.jobs command key then lease else s.jobLease key }
  | .startScan lease =>
    (s.leases.get lease).map fun keys =>
      { s with scans := s.scans.put lease (.conflicts (keys.map LeaseKey.lexical)) }
  | .page lease failed =>
    match s.scans.get lease with
    | some scan =>
      if scan.answer.isSome then none
      else some { s with
        scans := s.scans.put lease (scan.nextPage r s.fs config.pageLimit s.tables failed) }
    | none => none

end Admission

/-- No lease, no row, no scan. -/
def admission (config : AdmissionConfig) : Machine (Admission FS) (AdmissionEvent FS) where
  init := ⟨fs, 1, .empty, [], ⟨.empty, .empty⟩, .empty, fun _ => none, fun _ => none⟩
  step := Admission.step r config

/-! ## The discipline of the writers -/

/-- A lease on the path is held. -/
def LeasedOn (s : Admission FS) (lease : Option ℕ) (path : Path) : Prop :=
  ∃ id keys, lease = some id ∧ s.leases.get id = some keys ∧ path ∈ keys.map LeaseKey.lexical

/-- A row is inserted only while a lease on its target path is held. -/
def LeasedInserts (config : AdmissionConfig) (s : Admission FS) : AdmissionEvent FS → Prop
  | .upload lease command => ∀ key row,
      uploadInserts config.uploadLimits s.tables.sessions command key = true →
      (command.run config.uploadLimits s.tables.sessions).get key = some row →
      LeasedOn s lease row.session.targetPath
  | .purge lease command => ∀ key row, purgeInserts s.tables.jobs command key = true →
      (command.run config.purgeLimits s.tables.jobs).get key = some row →
      LeasedOn s lease row.targetPath
  | _ => True

/-- The path conflicts with the leased ones, as they resolve. -/
def ConflictsWith (keys : List LeaseKey) (path : Path) : Prop :=
  pathsConflict (r.leaseKeys fs (keys.map LeaseKey.lexical)) (r.leaseKeys fs [path]) = true

/-- Conflicting leases exclude each other. -/
def LeasesExclude (s : Admission FS) : Prop :=
  ∀ lease other keys keys', s.leases.get lease = some keys → s.leases.get other = some keys' →
    lease ≠ other → ∀ path ∈ keys'.map LeaseKey.lexical, ¬ ConflictsWith r s.fs keys path

/-- A change of the file system under a lease changes what a path resolves to only where that path
    conflicts, before and after it, with no lease of another. -/
def MutationApart (s : Admission FS) : AdmissionEvent FS → Prop
  | .mutate lease fs => ∀ path, r.resolvedPathKey fs path ≠ r.resolvedPathKey s.fs path →
      ∀ other keys, other ≠ lease → s.leases.get other = some keys →
        ¬ ConflictsWith r s.fs keys path ∧ ¬ ConflictsWith r fs keys path
  | _ => True

variable {r fs}

/-! ## Rows that block -/

/-- The target of an upload that is not terminal or of a prepared purge job, with its cursor
    and the lease under which the row was inserted. -/
inductive Target (s : Admission FS) : StatePathCursor → Path → Option ℕ → Prop
  | upload {key : UploadSessionKey} {row : UploadRow Path} :
      s.tables.sessions.get key = some row → row.session.state.isTerminal = false →
      Target s (StateTables.uploadCursor 0 key) row.session.targetPath (s.sessionLease key)
  | purge {key : PurgeJobKey} {row : PurgeRow Path} :
      s.tables.jobs.get key = some row → row.state = .prepared →
      Target s (StateTables.purgeCursor 0 key) row.targetPath (s.jobLease key)

variable {s s' : Admission FS} {path : Path} {paths : List Path} {config : AdmissionConfig}
  {e : AdmissionEvent FS} {scan : Scan} {keys : List LeaseKey}

theorem Target.mem_statePaths {c : StatePathCursor} {l : Option ℕ} (h : Target s c path l) :
    ∃ ent : StateBlockingPath Path, (c, ent) ∈ s.tables.statePaths.rows ∧
      ent.path = path := by
  cases h with
  | upload hr hl => exact ⟨_, StateTables.mem_statePaths_target hr hl, rfl⟩
  | purge hr hp => exact ⟨_, StateTables.mem_statePaths_purgeTarget hr hp, rfl⟩

theorem resolveStatePath_eq {lexical : Path} (h : resolveStatePath path = some lexical) :
    lexical = path := by
  unfold resolveStatePath at h
  split_ifs at h
  exact (Option.some.inj h).symm

/-- Sources that resolve have the keys of a lease on them. -/
theorem sourceKeys_eq {sources : List Path} {keys : List LeaseKey}
    (h : sourceKeys r fs sources = some keys) : keys = r.leaseKeys fs sources := by
  obtain ⟨res, hr, rfl⟩ := Option.map_eq_some_iff.mp h
  have hf := mapM_eq_some_iff.mp hr
  clear h hr
  induction hf with
  | nil => rfl
  | @cons path key paths keys hk _ ih =>
    rw [List.zipWith_cons_cons, ih]
    simp [Resolver.leaseKeys, Resolver.keyOf, hk]

/-- The scan blocks what conflicts with the lease. -/
theorem blocks_of_conflictsWith {ent : StateBlockingPath Path}
    (h : ConflictsWith r fs keys ent.path) :
    blocks r fs .symmetricConflict (keys.map LeaseKey.lexical) ent = true := by
  unfold blocks
  cases hl : resolveStatePath ent.path with
  | none => rfl
  | some lexical =>
  obtain rfl := resolveStatePath_eq hl
  cases hky : sourceKeys r fs (keys.map LeaseKey.lexical) with
  | none => rfl
  | some sources =>
  cases hk : r.resolvedPathKey fs ent.path with
  | none => simp only [hk]
  | some key =>
  simp only [hk]
  obtain ⟨src, hs, cand, hc, hcn⟩ := pathsConflict_iff.mp h
  have hc : cand = ⟨ent.path, key⟩ := by
    simpa [Resolver.leaseKeys, Resolver.keyOf, hk] using hc
  rw [hc] at hcn
  rw [StatePathScanRelation.holds, sourceKeys_eq hky]
  exact List.any_eq_true.mpr ⟨src, hs, hcn⟩

/-- The rows that a command on `upload_sessions` leaves. -/
theorem upload_target {cmd : UploadCommand Path} {key : UploadSessionKey} {row : UploadRow Path}
    (hr : (cmd.run config.uploadLimits s.tables.sessions).get key = some row)
    (hl : row.session.state.isTerminal = false)
    (hk : uploadInserts config.uploadLimits s.tables.sessions cmd key = false) :
    Target s (StateTables.uploadCursor 0 key) row.session.targetPath (s.sessionLease key) := by
  simp only [uploadInserts, Bool.or_eq_false_iff, Option.isNone_eq_false_iff] at hk
  obtain ⟨old, hold⟩ := Option.isSome_iff_exists.mp hk.1
  obtain ⟨row', hr', hkp⟩ := run_keeps config.uploadLimits hold hk.2
  rw [hr] at hr'
  cases hr'
  rw [hkp.targetPath]
  refine .upload hold ?_
  by_contra ht
  rw [Bool.not_eq_false] at ht
  rw [(hkp.terminal ht).1, ht] at hl
  cases hl

/-- The rows that a command on `purge_jobs` leaves. -/
theorem purge_target {cmd : PurgeCommand Path} {key : PurgeJobKey} {row : PurgeRow Path}
    (hrw : (cmd.run config.purgeLimits s.tables.jobs).get key = some row)
    (hp : row.state = .prepared) (hk : purgeInserts s.tables.jobs cmd key = false) :
    Target s (StateTables.purgeCursor 0 key) row.targetPath (s.jobLease key) := by
  simp only [purgeInserts, Bool.or_eq_false_iff, Option.isNone_eq_false_iff] at hk
  obtain ⟨old, hold⟩ := Option.isSome_iff_exists.mp hk.1
  obtain ⟨row', hr', hkp⟩ := purgeCommand_keeps config.purgeLimits hold hk.2
  rw [hrw] at hr'
  cases hr'
  rw [hkp.targetPath]
  refine .purge hold ?_
  by_contra hr
  exact (hkp.revision hr).1 hp

/-- A target of the next state was there, or it has been inserted under a lease on it. -/
def TargetsFrom (s s' : Admission FS) : Prop :=
  ∀ cursor path inserted, Target s' cursor path inserted → Target s cursor path inserted ∨
    LeasedOn s inserted path

/-- Targets depend on the tables only. -/
theorem Target.congr {c : StatePathCursor} {inserted : Option ℕ}
    (h : Target s' c path inserted) (ht : s'.tables = s.tables)
    (hs : s'.sessionLease = s.sessionLease) (hj : s'.jobLease = s.jobLease) :
    Target s c path inserted := by
  cases h with
  | upload hr hl =>
    rw [ht] at hr
    rw [hs]
    exact .upload hr hl
  | purge hr hp =>
    rw [ht] at hr
    rw [hj]
    exact .purge hr hp

/-- A step that leaves the tables alone. -/
theorem TargetsFrom.of_tables (htb : s'.tables = s.tables)
    (hs : s'.sessionLease = s.sessionLease) (hj : s'.jobLease = s.jobLease) :
    TargetsFrom s s' :=
  fun _ _ _ ht => .inl (ht.congr htb hs hj)

theorem step_targets (hok : LeasedInserts config s e) (h : s.step r config e = some s') :
    TargetsFrom s s' := by
  cases e with
  | upload l cmd =>
    cases h
    intro c path ins ht
    cases ht with
    | @upload key row hr hl =>
      dsimp only
      split_ifs with hi
      · exact .inr (hok key row hi hr)
      · exact .inl (upload_target hr hl (Bool.not_eq_true _ ▸ hi))
    | purge hr hp => exact .inl (.purge hr hp)
  | purge l cmd =>
    cases h
    intro c path ins ht
    cases ht with
    | upload hr hl => exact .inl (.upload hr hl)
    | @purge key row hr hp =>
      dsimp only
      split_ifs with hi
      · exact .inr (hok key row hi hr)
      · exact .inl (purge_target hr hp (Bool.not_eq_true _ ▸ hi))
  | acquire paths =>
    simp only [Admission.step] at h
    split_ifs at h
    cases h
    exact .of_tables rfl rfl rfl
  | release l =>
    cases h
    exact .of_tables rfl rfl rfl
  | mutate l fs =>
    obtain ⟨keys, -, rfl⟩ := Option.map_eq_some_iff.mp h
    exact .of_tables rfl rfl rfl
  | startScan l =>
    obtain ⟨keys, -, rfl⟩ := Option.map_eq_some_iff.mp h
    exact .of_tables rfl rfl rfl
  | page l fd =>
    simp only [Admission.step] at h
    split at h
    · split_ifs at h
      cases h
      exact .of_tables rfl rfl rfl
    · cases h

/-! ## Scans -/

variable (r) in
/-- The scan has passed no target that conflicts with the leased paths and was not inserted under
    its own lease. -/
def Clear (s : Admission FS) (lease : ℕ) (keys : List LeaseKey) (scan : Scan) : Prop :=
  scan.answer ≠ some true → ∀ cursor path inserted, Target s cursor path inserted →
    ConflictsWith r s.fs keys path → inserted = some lease ∨
      scan.answer = none ∧ Keyset.beyond scan.after cursor = true

variable (r fs) in
/-- A scan is about the paths of its lease. -/
structure ScanOf (keys : List LeaseKey) (scan : Scan) : Prop where
  sources : scan.scanner.sources = keys.map LeaseKey.lexical
  relation : scan.scanner.relation = .symmetricConflict
  valid : scan.scanner.Valid r fs

theorem nextPage_scanOf {n : ℕ} {tables : StateTables Path} {fd : Bool}
    (h : ScanOf r fs keys scan) : ScanOf r fs keys (scan.nextPage r fs n tables fd) := by
  unfold Scan.nextPage
  dsimp only
  split
  · exact ⟨h.sources, h.relation, h.valid⟩
  next scanner hp =>
  obtain ⟨-, hsr, hr, hv⟩ := pageConflicts_false h.valid hp
  have hs : ∀ aft a, ScanOf r fs keys ⟨scanner, aft, a⟩ :=
    fun aft a => ⟨hsr.trans h.sources, hr.trans h.relation, hv⟩
  split
  · exact hs _ _
  · exact hs _ _

/-- A page that does not block leaves the conflicting targets beyond the next cursor. -/
theorem nextPage_clear {n : ℕ} (hlm : 1 ≤ n) {l : ℕ} {fd : Bool}
    (hs : ScanOf r s.fs keys scan) (hop : scan.answer = none) (h : Clear r s l keys scan) :
    Clear r s l keys (scan.nextPage r s.fs n s.tables fd) := by
  unfold Scan.nextPage
  dsimp only
  split
  · exact fun ha => absurd rfl ha
  next scanner hp =>
  obtain ⟨hcl, -⟩ := pageConflicts_false hs.valid hp
  -- A conflicting target that the scan has not passed is not on this page.
  have hl : ∀ c path ins, Target s c path ins → ConflictsWith r s.fs keys path → ins ≠ some l →
      Keyset.beyond scan.after c = true ∧
      ∃ ent, (c, ent) ∈ s.tables.statePaths.rows ∧
        (c, ent) ∉ Keyset.page n scan.after s.tables.statePaths := by
    intro c path ins ht hc ho
    have hb : Keyset.beyond scan.after c = true :=
      ((h (by simp [hop]) c path ins ht hc).resolve_left ho).2
    obtain ⟨ent, he, rfl⟩ := ht.mem_statePaths
    refine ⟨hb, ent, he, fun hm => ?_⟩
    have hbl := blocks_of_conflictsWith hc
    rw [← hs.relation, ← hs.sources] at hbl
    have hpt : ent ∈ (queryStateBlockingPaths s.tables scan.after n).paths :=
      List.mem_map_of_mem (f := Prod.snd) hm
    rw [List.any_eq_true.mpr ⟨ent, hpt, hbl⟩] at hcl
    cases hcl
  split
  · next hn =>
    intro _ c path ins ht hc
    by_contra ho
    obtain ⟨hb, ent, he, hnt⟩ :=
      hl c path ins ht hc (fun heq => ho (.inl heq))
    exact hnt (Keyset.mem_page_of_next_none hlm he hb hn)
  · next next hn =>
    intro _ c path ins ht hc
    by_cases ho : ins = some l
    · exact .inl ho
    obtain ⟨hb, ent, he, hnt⟩ := hl c path ins ht hc ho
    refine .inr ⟨hop, Keyset.beyond_some.mpr (not_le.mp fun hle => hnt ?_)⟩
    exact Keyset.mem_page_of_le_next he hb hn hle

/-! ## Runs -/

variable (r) in
/-- The scan of a holder that has changed nothing. -/
structure Watched (s : Admission FS) (lease : ℕ) (keys : List LeaseKey) (scan : Scan) : Prop where
  held : s.leases.get lease = some keys
  scanOf : ScanOf r s.fs keys scan
  clear : Clear r s lease keys scan

variable (r) in
/-- What holds of leases and scans in every run. -/
structure Guarded (s : Admission FS) : Prop where
  issued : ∀ lease keys, s.leases.get lease = some keys → lease < s.nextLease
  scans : ∀ lease scan, s.scans.get lease = some scan → lease ∉ s.mutated →
    ∃ keys, Watched r s lease keys scan

/-- What another inserts under its lease does not conflict with the leased paths. -/
theorem Watched.targets {l : ℕ} (h : Watched r s l keys scan) (hx : LeasesExclude r s)
    (ht : TargetsFrom s s') (hfs : s'.fs = s.fs) (hl : s'.leases.get l = some keys) :
    Watched r s' l keys scan := by
  refine ⟨hl, hfs ▸ h.scanOf, fun ha c path ins htg hc => ?_⟩
  rw [hfs] at hc
  obtain hold | ⟨id, keys', rfl, hid, hp⟩ := ht c path ins htg
  · exact h.clear ha c path ins hold hc
  refine .inl ?_
  by_contra ho
  have hne : l ≠ id := fun heq => ho (by rw [heq])
  exact hx l id keys keys' h.held hid hne path hp hc

/-- A step that neither changes the file system nor reads a page. -/
theorem Guarded.of_targets (hgd : Guarded r s) (hx : LeasesExclude r s) (ht : TargetsFrom s s')
    (hfs : s'.fs = s.fs) (hm : s'.mutated = s.mutated)
    (hi : ∀ lease keys, s'.leases.get lease = some keys → lease < s'.nextLease)
    (hs : ∀ lease scan, s'.scans.get lease = some scan → s.scans.get lease = some scan ∧
      ∀ keys, s.leases.get lease = some keys → s'.leases.get lease = some keys) :
    Guarded r s' := by
  refine ⟨hi, fun l scan hsc hnm => ?_⟩
  obtain ⟨hsc, hk⟩ := hs l scan hsc
  rw [hm] at hnm
  obtain ⟨keys, hw⟩ := hgd.scans l scan hsc hnm
  exact ⟨keys, hw.targets hx ht hfs (hk keys hw.held)⟩

/-- A scan that begins, or goes on by a page. -/
theorem Guarded.putScan (hgd : Guarded r s) (hx : LeasesExclude r s) {l : ℕ}
    (hw : l ∉ s.mutated → ∃ keys, Watched r s l keys scan) :
    Guarded r { s with scans := s.scans.put l scan } := by
  have ht : TargetsFrom s { s with scans := s.scans.put l scan } := .of_tables rfl rfl rfl
  refine ⟨hgd.issued, fun l' scan' hsc hnm => ?_⟩
  obtain ⟨rfl, rfl⟩ | ⟨-, hold⟩ := Table.get_put_cases hsc
  · obtain ⟨keys, hw⟩ := hw hnm
    exact ⟨keys, hw.targets hx ht rfl hw.held⟩
  · obtain ⟨keys, hw⟩ := hgd.scans l' scan' hold hnm
    exact ⟨keys, hw.targets hx ht rfl hw.held⟩

theorem leaseKeys_congr {fs' : FS}
    (h : ∀ path ∈ paths, r.resolvedPathKey fs' path = r.resolvedPathKey fs path) :
    r.leaseKeys fs' paths = r.leaseKeys fs paths :=
  List.map_congr_left fun path hp => by rw [Resolver.keyOf, Resolver.keyOf, h path hp]

theorem conflictsWith_congr {fs' : FS}
    (hk : ∀ path ∈ keys.map LeaseKey.lexical,
      r.resolvedPathKey fs' path = r.resolvedPathKey fs path)
    (hp : r.resolvedPathKey fs' path = r.resolvedPathKey fs path) :
    ConflictsWith r fs' keys path ↔ ConflictsWith r fs keys path := by
  have hs : r.leaseKeys fs' [path] = r.leaseKeys fs [path] :=
    leaseKeys_congr fun p hm => by rwa [List.mem_singleton.mp hm]
  rw [ConflictsWith, ConflictsWith, leaseKeys_congr hk, hs]

theorem ScanOf.congr {fs' : FS} (h : ScanOf r fs keys scan)
    (hk : ∀ path ∈ keys.map LeaseKey.lexical,
      r.resolvedPathKey fs' path = r.resolvedPathKey fs path) : ScanOf r fs' keys scan := by
  refine ⟨h.sources, h.relation, fun sources hs => ?_⟩
  rw [← h.valid sources hs, sourceKeys, sourceKeys, h.sources, mapM_congr hk]

/-- A path conflicts with the lease on it. -/
theorem conflictsWith_self (hp : path ∈ keys.map LeaseKey.lexical) :
    ConflictsWith r fs keys path := by
  refine pathsConflict_iff.mpr ⟨⟨path, r.keyOf fs path⟩, List.mem_map.mpr ⟨path, hp, rfl⟩,
    ⟨path, r.keyOf fs path⟩, List.mem_singleton_self _, ?_⟩
  simp [pathKeysConflict, startsWith_iff]

/-- The change of another neither moves the leased paths nor moves a target onto them. -/
theorem Watched.mutate {l l' : ℕ} {fs' : FS} (h : Watched r s l keys scan)
    (hap : MutationApart r s (.mutate l' fs')) (hne : l ≠ l') :
    Watched r { s with fs := fs', mutated := l' :: s.mutated } l keys scan := by
  have hk : ∀ path ∈ keys.map LeaseKey.lexical,
      r.resolvedPathKey fs' path = r.resolvedPathKey s.fs path := by
    intro path hp
    by_contra hch
    exact (hap path hch l keys hne h.held).1 (conflictsWith_self hp)
  refine ⟨h.held, h.scanOf.congr hk, fun ha c path ins ht hc => ?_⟩
  have ht : Target s c path ins := Target.congr ht rfl rfl rfl
  by_cases hch : r.resolvedPathKey fs' path = r.resolvedPathKey s.fs path
  · exact h.clear ha c path ins ht ((conflictsWith_congr hk hch).mp hc)
  · exact absurd hc (hap path hch l keys hne h.held).2

theorem Guarded.mutate (hgd : Guarded r s) {l : ℕ} {fs' : FS}
    (hap : MutationApart r s (.mutate l fs')) :
    Guarded r { s with fs := fs', mutated := l :: s.mutated } := by
  refine ⟨hgd.issued, fun l' scan hs hnm => ?_⟩
  obtain ⟨hne, hnm⟩ := not_or.mp (List.mem_cons.not.mp hnm)
  obtain ⟨keys, hw⟩ := hgd.scans l' scan hs hnm
  exact ⟨keys, hw.mutate hap hne⟩

variable (r) in
/-- What the writers keep to. -/
structure Disciplined (config : AdmissionConfig) (s : Admission FS) (e : AdmissionEvent FS) :
    Prop where
  inserts : LeasedInserts config s e
  exclude : LeasesExclude r s

theorem Guarded.step (hlm : 1 ≤ config.pageLimit) (hgd : Guarded r s)
    (hok : Disciplined r config s e) (hap : MutationApart r s e)
    (h : s.step r config e = some s') : Guarded r s' := by
  have ht := step_targets hok.inserts h
  cases e with
  | upload | purge =>
    cases h
    exact hgd.of_targets hok.exclude ht rfl rfl hgd.issued fun _ _ hs => ⟨hs, fun _ hk => hk⟩
  | acquire paths =>
    simp only [Admission.step] at h
    split_ifs at h
    cases h
    refine hgd.of_targets hok.exclude ht rfl rfl ?_ fun l scan hs => ⟨hs, fun keys hk => ?_⟩
    · intro l keys hl
      obtain ⟨rfl, -⟩ | ⟨-, hold⟩ := Table.get_put_cases hl
      · exact Nat.lt_succ_self _
      · exact (hgd.issued l keys hold).trans (Nat.lt_succ_self _)
    · exact Table.get_put_of_ne hk (hgd.issued l keys hk).ne
  | release l =>
    cases h
    refine hgd.of_targets hok.exclude ht rfl rfl
      (fun l' keys hl => hgd.issued l' keys (Table.get_of_get_erase hl).2) fun l' scan hs => ?_
    obtain ⟨hne, hs⟩ := Table.get_of_get_erase hs
    exact ⟨hs, fun keys hk => by rw [Table.get_erase, if_neg hne, hk]⟩
  | mutate l fs' =>
    obtain ⟨keys, -, rfl⟩ := Option.map_eq_some_iff.mp h
    exact hgd.mutate hap
  | startScan l =>
    obtain ⟨keys, hl, rfl⟩ := Option.map_eq_some_iff.mp h
    refine hgd.putScan hok.exclude fun _ => ⟨keys, hl, ⟨rfl, rfl, fun _ h => by cases h⟩, ?_⟩
    exact fun _ _ _ _ _ _ => .inr ⟨rfl, rfl⟩
  | page l fd =>
    simp only [Admission.step] at h
    split at h
    · next scan hs =>
      split_ifs at h with ha
      cases h
      rw [Option.not_isSome_iff_eq_none] at ha
      refine hgd.putScan hok.exclude fun hnm => ?_
      obtain ⟨keys, hl, hof, hc⟩ := hgd.scans l scan hs hnm
      exact ⟨keys, hl, nextPage_scanOf hof, nextPage_clear hlm hof ha hc⟩
    · cases h

theorem reachable_guarded (hl : 1 ≤ config.pageLimit) (h : (admission r fs config).Reachable
      (fun s e => Disciplined r config s e ∧ MutationApart r s e) s) : Guarded r s := by
  refine h.invariant ⟨?_, ?_⟩ fun s e s' _ hgd hok hs => hgd.step hl hok.1 hok.2 hs
  all_goals
    intro l x hx
    cases hx

/-! ## The scan and its answer -/

/-- **Scans of durable state.** The first part is about a scan with pages of any size over
    tables that change in any way between two pages. It ends. It yields no row twice, and every
    row that is in the tables all the time once. It answers "conflict" if such a row blocks,
    and only if some row on one of its pages does, or a page could not be resolved.

    The second part is about the lease under which a scan is made, in runs that change the file
    system too. Where rows are inserted only under a lease on their target, conflicting leases
    exclude each other, and a change under one lease moves no path that conflicts with another: as
    long as the lease of a scan that answered "no conflict" is held, and its holder has changed
    nothing, no upload that is not terminal and no prepared purge job has a target that conflicts
    with the leased paths, other than those inserted under the lease itself, such as the intent of
    a deletion. -/
theorem persisted_paths_scanned (r : Resolver FS) (fs : FS) :
    (∀ (limit : ℕ) (tables : ℕ → StateTables Path) (failed : ℕ → Bool) (paths : List Path),
      1 ≤ limit → ∃ fuel pages answer,
        Keyset.scan limit (fun i => (tables i).statePaths) fuel 0 none = some pages ∧
        hasPersistedPathConflict r fs limit tables failed fuel paths = some answer ∧
        Scanned r fs .symmetricConflict tables failed paths pages answer) ∧
    (∀ (config : AdmissionConfig) (s : Admission FS), 1 ≤ config.pageLimit →
      (admission r fs config).Reachable
        (fun s e => Disciplined r config s e ∧ MutationApart r s e) s →
      ∀ lease keys scan, s.leases.get lease = some keys → lease ∉ s.mutated →
        s.scans.get lease = some scan → scan.answer = some false →
        ∀ cursor path inserted, Target s cursor path inserted →
          ConflictsWith r s.fs keys path → inserted = some lease) := by
  constructor
  · intro limit tables failed paths hl
    exact scan_answers hl .symmetricConflict tables failed paths
  intro config s hl hs lease keys scan hls hnm hsc ha cursor path inserted ht hc
  obtain ⟨held, hw⟩ := (reachable_guarded hl hs).scans lease scan hsc hnm
  have hk := hw.held
  rw [hls] at hk
  cases hk
  obtain how | ⟨ho, -⟩ := hw.clear (by simp [ha]) cursor path inserted ht hc
  · exact how
  · rw [ha] at ho
    cases ho

/-- A running upload of a file. -/
def runningUpload (target stage : Path) : UploadRow Path :=
  ⟨⟨target, stage, 1, 0, .running, none, none⟩, 0⟩

/-- An upload of `g`, and from the second query on one of `f` too. -/
def growingTables (n : ℕ) : StateTables Path where
  sessions :=
    let first : UploadSessions Path := .put .empty ⟨0, 1⟩ (runningUpload ["g"] ["g.stage"])
    if n = 0 then first else first.put ⟨0, 2⟩ (runningUpload ["f"] ["f.stage"])
  jobs := .empty

def smallConfig : AdmissionConfig := ⟨⟨4, 4, 1000⟩, ⟨4, 4⟩, 1⟩

/-- A deletion of `f`: the lease, the scan, and its own intent before the commit. -/
def deletionRun : List (AdmissionEvent Unit) :=
  [.acquire [["f"]], .startScan 1, .page 1 false,
    .purge (some 1) (.prepare 0 ⟨0, 1⟩ ["f"] ["f.trash"] ⟨1, 10⟩ false)]

/-- Paths are resolved in the tree. -/
def treeResolver : Resolver RootedFs.Tree where
  rootIdentity := ⟨1, 1⟩
  resolvedPathKey := fun tree path => (tree.resolvedPathKey path).toOption

/-- `m/link` leads to the root instead of `d`. -/
def relinkedTree : RootedFs.Tree :=
  .ofNodes ⟨1, 1⟩ ((RootedFs.Tree.linkTree.nodes.put
    ⟨1, 2⟩ (.directory ⟨1, 1⟩ (.put .empty "link" ⟨1, 6⟩))).put
    ⟨1, 6⟩ (.symlink false [.up])) (by decide)

/-- With an upload to `m/link/f` begun, the scan under a lease on `f` has read its first page when
    `alias/link`, which passed its own scan, is unlinked. -/
def unlinkRun : List (AdmissionEvent RootedFs.Tree) :=
  [.acquire [["m", "link", "f"]],
    .upload (some 1) (.save 0 9 ⟨0, 1⟩ (runningUpload ["m", "link", "f"] ["m", "stage"]).session),
    .release 1, .acquire [["f"]], .startScan 2, .page 2 false,
    .acquire [["alias", "link"]], .startScan 3, .page 3 false, .page 3 false, .page 3 false,
    .mutate 3 RootedFs.Tree.unlinkedTree]

/-- Then a link to the root takes its place, and the first scan goes on. -/
def relinkRun : List (AdmissionEvent RootedFs.Tree) :=
  unlinkRun ++ [.mutate 3 relinkedTree, .page 2 false, .page 2 false]

/-- The test of `LeasedOn`. -/
def leasedOn (s : Admission FS) (lease : Option ℕ) (path : Path) : Bool :=
  (lease.bind s.leases.get).any fun keys => decide (path ∈ keys.map LeaseKey.lexical)

/-- The test of `Disciplined`. -/
def disciplined (r : Resolver FS) (config : AdmissionConfig) (s : Admission FS)
    (e : AdmissionEvent FS) : Bool :=
  (match e with
    | .upload lease command =>
      (command.run config.uploadLimits s.tables.sessions).rows.all fun row =>
        !uploadInserts config.uploadLimits s.tables.sessions command row.1 ||
          leasedOn s lease row.2.session.targetPath
    | .purge lease command =>
      (command.run config.purgeLimits s.tables.jobs).rows.all fun row =>
        !purgeInserts s.tables.jobs command row.1 || leasedOn s lease row.2.targetPath
    | _ => true) &&
  s.leases.rows.all fun row => s.leases.rows.all fun other => decide (row.1 = other.1) ||
    (other.2.map LeaseKey.lexical).all fun path => !pathsConflict
      (r.leaseKeys s.fs (row.2.map LeaseKey.lexical)) (r.leaseKeys s.fs [path])

theorem leasedOn_sound {l : Option ℕ} (h : leasedOn s l path = true) : LeasedOn s l path := by
  obtain ⟨keys, hk, hm⟩ := (Option.any_eq_true _ _).mp h
  obtain ⟨id, hid, hg⟩ := Option.bind_eq_some_iff.mp hk
  exact ⟨id, keys, hid, hg, of_decide_eq_true hm⟩

theorem disciplined_sound (h : disciplined r config s e = true) : Disciplined r config s e := by
  obtain ⟨hi, hx⟩ := (Bool.and_eq_true _ _).mp h
  constructor
  · cases e with
    | upload | purge =>
      intro key row hn hr
      have hr := List.all_eq_true.mp hi _ (Table.get_eq_some_iff.mp hr)
      rw [hn, Bool.not_true, Bool.false_or] at hr
      exact leasedOn_sound hr
    | _ => trivial
  · intro l other keys keys' hl ho hne path hp hc
    have hr := List.all_eq_true.mp hx _ (Table.get_eq_some_iff.mp hl)
    have hr := List.all_eq_true.mp hr _ (Table.get_eq_some_iff.mp ho)
    rw [decide_eq_false hne, Bool.false_or] at hr
    have hr := List.all_eq_true.mp hr path hp
    rw [show pathsConflict _ _ = true from hc] at hr
    cases hr

/-- The scan under the lease answered "no conflict", and the target of a row conflicts. -/
def conflictsAfterScan (r : Resolver FS) (lease : ℕ) (s : Admission FS) : Bool :=
  ((s.scans.get lease).any fun scan => decide (scan.answer = some false)) &&
  (s.leases.get lease).any fun keys =>
    ((s.tables.sessions.rows.filter fun row => !row.2.session.state.isTerminal).map
        fun row => row.2.session.targetPath) ++
      ((s.tables.jobs.rows.filter fun row => decide (row.2.state = .prepared)).map
        fun row => row.2.targetPath) |>.any fun path => pathsConflict
          (r.leaseKeys s.fs (keys.map LeaseKey.lexical)) (r.leaseKeys s.fs [path])

theorem exists_disciplined_run {r : Resolver FS} {fs : FS} (es : List (AdmissionEvent FS))
    (p : Admission FS → Bool)
    (h : (((admission r fs smallConfig).guarded (disciplined r smallConfig)).run es).any p = true) :
    ∃ s, (admission r fs smallConfig).Reachable (Disciplined r smallConfig) s ∧ p s = true := by
  obtain ⟨s, hs, hp⟩ := ((admission r fs smallConfig).guarded
    (disciplined r smallConfig)).exists_reachable_of_run es p (fun _ _ _ => trivial) h
  exact ⟨s, hs.of_guarded fun _ _ => disciplined_sound, hp⟩

/-- A row that appears during a scan may make it answer "conflict" although no row blocks that
    was there all the time. A deletion commits with its own intent on the leased path. Unlinking
    `alias/link` brings `m/link/f` under the lease of the one who does it, and replacing the link
    brings it under the lease of another, whose scan has passed it. -/
theorem transient_row_own_intent_and_moved_link :
    (hasPersistedPathConflict flatResolver () 2 growingTables (fun _ => false) 2 [["f"]] =
        some true ∧
      ∀ entry ∈ (growingTables 0).statePaths.rows,
        blocks flatResolver () .symmetricConflict [["f"]] entry.2 = false) ∧
    (∃ s, (admission flatResolver () smallConfig).Reachable
        (Disciplined flatResolver smallConfig) s ∧
      (conflictsAfterScan flatResolver 1 s && decide (1 ∉ s.mutated)) = true) ∧
    (∃ s, (admission treeResolver RootedFs.Tree.linkTree smallConfig).Reachable
        (Disciplined treeResolver smallConfig) s ∧ conflictsAfterScan treeResolver 3 s = true) ∧
    ∃ s, (admission treeResolver RootedFs.Tree.linkTree smallConfig).Reachable
        (Disciplined treeResolver smallConfig) s ∧
      (conflictsAfterScan treeResolver 2 s && decide (2 ∉ s.mutated)) = true := by
  refine ⟨by decide +kernel, ?_, ?_, ?_⟩
  · exact exists_disciplined_run deletionRun _ (by decide +kernel)
  · exact exists_disciplined_run unlinkRun _ (by decide +kernel)
  · exact exists_disciplined_run relinkRun _ (by decide +kernel)

end DufsRam.PathCoordinator
