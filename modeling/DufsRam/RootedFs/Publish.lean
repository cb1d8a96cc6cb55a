import DufsRam.Lib.Table
import DufsRam.PathCoordinator.Conflict

/-!
# Publishing a staged file

Model of `rename_replace_if_unchanged` (`rooted_fs.rs`, lines 1831-1951),
`rename_missing_and_verify` (lines 3054-3113) and `commit_staged_file` (`storage.rs`,
lines 82-113) under faults: every system call may fail, and a rename may take effect and
still report an error, as the comment of `classify_failed_checked_trash_rename` (lines
3014-3018) says of remote filesystems. Nobody else writes to the two directories.

Results:
* `checkReplace_eq_some_iff`: when the rename is reached.
* `commit_truthful_iff`: when the answers "rejected" and "not published" are true.
-/

namespace DufsRam.RootedFs

/-- The errors the code distinguishes. -/
inductive Errno where
  | noent
  | exist
  | isdir
  | other (code : ℕ)
deriving DecidableEq

inductive FileType where
  | regularFile
  | directory
  | symlink
  | other
deriving DecidableEq

/-- What `fstat` reports of an inode beside its identity and links. -/
structure Attributes where
  fileType : FileType
  size : ℤ
  uid : ℕ
  gid : ℕ
  mode : ℕ
  modified : ℤ × ℕ
  changed : ℤ × ℕ
deriving DecidableEq

/-- `ExistingReplacementTarget` (lines 113-127). -/
structure ExistingReplacementTarget where
  identity : FileIdentity
  links : ℕ
  attributes : Attributes
deriving DecidableEq

/-- `ReplacementTargetIdentity` (lines 129-133). -/
inductive ReplacementTargetIdentity where
  | missing
  | existing (target : ExistingReplacementTarget)
deriving DecidableEq

/-- A name in an opened parent directory. -/
abbrev EntryName := FileIdentity × String

/-- Names and inodes. `directoryLinks` is the link count of a directory, which its
    subdirectories determine; other inodes have one link for each name. -/
structure Volume where
  names : Table EntryName FileIdentity
  attributes : FileIdentity → Attributes
  directoryLinks : FileIdentity → ℕ

namespace Volume

variable (v : Volume)

def links (i : FileIdentity) : ℕ :=
  if (v.attributes i).fileType = .directory then v.directoryLinks i
  else v.names.countWhere fun _ j => decide (j = i)

/-- `replacement_target_identity` of an inode (lines 3115-3130). -/
def replacementTargetIdentity (i : FileIdentity) : ExistingReplacementTarget :=
  ⟨i, v.links i, v.attributes i⟩

/-- `statat(…, SYMLINK_NOFOLLOW)`. -/
def statat (name : EntryName) : Except Errno ExistingReplacementTarget :=
  match v.names.get name with
  | some i => .ok (v.replacementTargetIdentity i)
  | none => .error .noent

/-- A rename of something that is not a directory, with `RENAME_NOREPLACE` or without. Two
    names of one inode are left alone. -/
def renamed (noreplace : Bool) (source destination : EntryName) : Except Errno Volume :=
  match v.names.get source with
  | none => .error .noent
  | some i =>
    let moved := { v with names := (v.names.erase source).put destination i }
    match v.names.get destination with
    | none => .ok moved
    | some j =>
      if noreplace then .error .exist
      else if j = i then .ok v
      else if (v.attributes j).fileType = .directory then .error .isdir
      else .ok moved

end Volume

/-! ## Faults -/

/-- What can go wrong with a rename: it fails, or its success is not reported. -/
inductive RenameFault where
  | fails (error : Errno)
  | lost (error : Errno)
deriving DecidableEq

/-- The blocking task: not admitted, or its result lost after it ran. -/
inductive GateFault where
  | closed
  | joinError
deriving DecidableEq

/-- A fault for each system call, in the order of the source. -/
structure Faults where
  syncFile : Option Errno
  dup : Option Errno
  gate : Option GateFault
  openSource : Option Errno
  openDestination : Option Errno
  sameParent : Option Errno
  fstatSource : Option Errno
  statSource : Option Errno
  statDestination : Option Errno
  rename : Option RenameFault
  fstatAnchor : Option Errno
  statPublished : Option Errno
  syncParents : Option Errno
deriving DecidableEq

/-- A system call that reports the fault, if there is one. -/
def withFault {α : Type} (fault : Option Errno) (result : Except Errno α) : Except Errno α :=
  match fault with
  | some e => .error e
  | none => result

/-- `renameat` and `renameat_with`. -/
def Volume.renameat (v : Volume) (fault : Option RenameFault) (noreplace : Bool)
    (source destination : EntryName) : Except Errno Unit × Volume :=
  match fault, v.renamed noreplace source destination with
  | some (.fails e), _ => (.error e, v)
  | _, .error e => (.error e, v)
  | some (.lost e), .ok v' => (.error e, v')
  | none, .ok v' => (.ok (), v')

/-! ## The code -/

/-- The arguments of `rename_replace_if_unchanged`; `opened` is the inode of the open
    staging file. -/
structure ReplaceRequest where
  opened : FileIdentity
  source : EntryName
  destination : EntryName
  expected : ReplacementTargetIdentity

/-- `ReplaceAndSyncOutcome` (lines 199-204) and `CommitStagedFileOutcome`. -/
inductive ReplaceOutcome where
  | published
  | rejected
  | notPublished (error : Errno)
  | publishedDurabilityUnknown
deriving DecidableEq

/-- The check of the destination (lines 1874-1889 and 1915-1917). `some noreplace` if the
    rename is to be made, `none` for `Rejected`. -/
def checkDestination (v : Volume) (f : Faults) (r : ReplaceRequest) :
    Except Errno (Option Bool) :=
  let currentDestination : Except Errno (Option ExistingReplacementTarget) :=
    match withFault f.statDestination (v.statat r.destination) with
    | .ok stat => .ok (some stat)
    | .error .noent => .ok none
    | .error e => .error e
  currentDestination.map fun current =>
    match r.expected with
    | .missing => if current.isSome then none else some true
    | .existing expected => if current ≠ some expected then none else some false

/-- The checks before the rename (lines 1856-1889 and 1915-1917). -/
def checkReplace (v : Volume) (f : Faults) (r : ReplaceRequest) : Except Errno (Option Bool) := do
  withFault f.openSource (.ok ())
  withFault f.openDestination (.ok ())
  withFault f.sameParent (.ok ())
  let openedSource ← withFault f.fstatSource (.ok (v.replacementTargetIdentity r.opened))
  match withFault f.statSource (v.statat r.source) with
  | .error .noent => .ok none
  | .error e => .error e
  | .ok namedSource =>
    if openedSource ≠ namedSource ∨ openedSource.attributes.fileType ≠ .regularFile ∨
        openedSource.links ≠ 1 then .ok none
    else checkDestination v f r

/-- `rename_missing_and_verify` after a rename that was reported as done (lines 3078-3112):
    whether the destination is seen to be the pinned source. -/
def verified (v : Volume) (f : Faults) (r : ReplaceRequest) : Bool :=
  match withFault f.fstatAnchor (.ok (v.replacementTargetIdentity r.opened)),
    withFault f.statPublished (v.statat r.destination) with
  | .ok anchored, .ok named => decide (anchored = named)
  | _, _ => false

/-- The rename, with `NOREPLACE` (lines 1891-1912) or without (lines 1918-1919), and what
    follows it (lines 1922-1944). -/
def renameAndSync (v : Volume) (f : Faults) (r : ReplaceRequest) (noreplace : Bool) :
    ReplaceOutcome × Volume :=
  match v.renameat f.rename noreplace r.source r.destination with
  | (.error e, v') =>
    (if noreplace ∧ e = .exist then .rejected else .notPublished e, v')
  | (.ok (), v') =>
    if noreplace ∧ verified v' f r = false then (.publishedDurabilityUnknown, v')
    else if f.syncParents.isSome then (.publishedDurabilityUnknown, v')
    else (.published, v')

/-- The blocking closure (lines 1848-1945). -/
def replaceBlocking (v : Volume) (f : Faults) (r : ReplaceRequest) : ReplaceOutcome × Volume :=
  match checkReplace v f r with
  | .error e => (.notPublished e, v)
  | .ok none => (.rejected, v)
  | .ok (some noreplace) => renameAndSync v f r noreplace

/-- `rename_replace_if_unchanged` (lines 1831-1951). -/
def renameReplaceIfUnchanged (v : Volume) (f : Faults) (r : ReplaceRequest) :
    ReplaceOutcome × Volume :=
  match f.dup, f.gate with
  | some e, _ => (.notPublished e, v)
  | none, some .closed => (.publishedDurabilityUnknown, v)
  | none, some .joinError => (.publishedDurabilityUnknown, (replaceBlocking v f r).2)
  | none, none => replaceBlocking v f r

/-- `commit_staged_file` (`storage.rs`, lines 82-113). -/
def commitStagedFile (v : Volume) (f : Faults) (r : ReplaceRequest) : ReplaceOutcome × Volume :=
  match f.syncFile with
  | some e => (.notPublished e, v)
  | none => renameReplaceIfUnchanged v f r

/-! ## When the rename is reached -/

/-- The stage is what the caller opened: a regular file with one name. -/
def StageIntact (v : Volume) (r : ReplaceRequest) : Prop :=
  v.names.get r.source = some r.opened ∧
    (v.attributes r.opened).fileType = .regularFile ∧ v.links r.opened = 1

/-- The destination is seen to be what the caller expects. A failed `statat` that reports
    `ENOENT` passes for a missing destination. -/
def DestinationSeen (v : Volume) (f : Faults) (r : ReplaceRequest) : Prop :=
  match r.expected with
  | .missing => f.statDestination = some .noent ∨
      (f.statDestination = none ∧ v.names.get r.destination = none)
  | .existing target => f.statDestination = none ∧
      ∃ j, v.names.get r.destination = some j ∧ v.replacementTargetIdentity j = target

/-- No fault before the checks, and the checks pass. -/
structure ChecksPass (v : Volume) (f : Faults) (r : ReplaceRequest) : Prop where
  openSource : f.openSource = none
  openDestination : f.openDestination = none
  sameParent : f.sameParent = none
  fstatSource : f.fstatSource = none
  statSource : f.statSource = none
  stage : StageIntact v r
  destination : DestinationSeen v f r

/-- Whether the rename is made with `NOREPLACE`. -/
def ReplaceRequest.noreplace (r : ReplaceRequest) : Bool := decide (r.expected = .missing)

variable {v : Volume} {f : Faults} {r : ReplaceRequest} {b : Bool}

theorem checkDestination_eq_some_iff :
    checkDestination v f r = .ok (some b) ↔ DestinationSeen v f r ∧ b = r.noreplace := by
  unfold checkDestination DestinationSeen ReplaceRequest.noreplace Volume.statat
  cases hf : f.statDestination with
  | some e => cases e <;> cases r.expected <;> simp [withFault, Except.map, eq_comm]
  | none =>
    cases hd : v.names.get r.destination <;> cases r.expected <;>
      simp [withFault, Except.map, eq_comm]

theorem stage_checks_iff {i : FileIdentity} (hi : v.names.get r.source = some i) :
    ¬ (v.replacementTargetIdentity r.opened ≠ v.replacementTargetIdentity i ∨
      (v.replacementTargetIdentity r.opened).attributes.fileType ≠ .regularFile ∨
      (v.replacementTargetIdentity r.opened).links ≠ 1) ↔ StageIntact v r := by
  have hs : v.replacementTargetIdentity r.opened = v.replacementTargetIdentity i ↔
      i = r.opened := by
    constructor
    · intro h
      exact (congrArg ExistingReplacementTarget.identity h).symm
    · rintro rfl
      rfl
  rw [StageIntact, hi, Option.some.injEq, not_or, not_or, not_not, not_not, not_not, hs]
  rfl

/-- The rename is made exactly when no call before it fails and every check passes. -/
theorem checkReplace_eq_some_iff :
    checkReplace v f r = .ok (some b) ↔ ChecksPass v f r ∧ b = r.noreplace := by
  constructor
  · intro h
    unfold checkReplace at h
    cases h1 : f.openSource with
    | some e => rw [h1] at h; cases h
    | none =>
    cases h2 : f.openDestination with
    | some e => rw [h1, h2] at h; cases h
    | none =>
    cases h3 : f.sameParent with
    | some e => rw [h1, h2, h3] at h; cases h
    | none =>
    cases h4 : f.fstatSource with
    | some e => rw [h1, h2, h3, h4] at h; cases h
    | none =>
    cases h5 : f.statSource with
    | some e => rw [h1, h2, h3, h4, h5] at h; cases e <;> cases h
    | none =>
    simp only [h1, h2, h3, h4, h5, withFault, Volume.statat, bind, Except.bind] at h
    cases hi : v.names.get r.source with
    | none => simp only [hi] at h; cases h
    | some i =>
      simp only [hi] at h
      split_ifs at h with hs
      · cases h
      · obtain ⟨hd, hb⟩ := checkDestination_eq_some_iff.mp h
        exact ⟨⟨h1, h2, h3, h4, h5, (stage_checks_iff hi).mp hs, hd⟩, hb⟩
  · rintro ⟨⟨h1, h2, h3, h4, h5, hs, hd⟩, hb⟩
    have hi := hs.1
    unfold checkReplace
    simp only [h1, h2, h3, h4, h5, withFault, Volume.statat, bind, Except.bind, hi]
    rw [if_neg ((stage_checks_iff hi).mpr hs)]
    exact checkDestination_eq_some_iff.mpr ⟨hd, hb⟩

/-! ## Truthful answers -/

/-- A stage with one name is not what another name holds. -/
theorem StageIntact.ne_of_get (h : StageIntact v r) (hne : r.source ≠ r.destination)
    {j : FileIdentity} (hj : v.names.get r.destination = some j) : j ≠ r.opened := by
  rintro rfl
  obtain ⟨hs, hr, hl⟩ := h
  have hd : (v.attributes r.opened).fileType ≠ .directory := by rw [hr]; decide
  rw [Volume.links, if_neg hd] at hl
  exact hne (Table.key_eq_of_countWhere_eq_one hl hs (decide_eq_true rfl) hj (decide_eq_true rfl))

/-- What the rename of an intact stage meets at the destination: nothing, or something that
    may be replaced. -/
def Replaceable (v : Volume) (r : ReplaceRequest) : Prop :=
  ∀ j, v.names.get r.destination = some j →
    r.noreplace = false ∧ (v.attributes j).fileType ≠ .directory

theorem renamed_of_replaceable (hs : StageIntact v r) (hne : r.source ≠ r.destination)
    (h : Replaceable v r) :
    ∃ v', v.renamed r.noreplace r.source r.destination = .ok v' ∧
      v'.names.get r.destination = some r.opened ∧ v.names.get r.destination ≠ some r.opened := by
  refine ⟨{ v with names := (v.names.erase r.source).put r.destination r.opened }, ?_, ?_, ?_⟩
  · unfold Volume.renamed
    simp only [hs.1]
    cases hj : v.names.get r.destination with
    | none => rfl
    | some j =>
      obtain ⟨hr, hd⟩ := h j hj
      simp [hr, hd, hs.ne_of_get hne hj]
  · simp
  · intro hj
    exact hs.ne_of_get hne hj rfl

/-- Where nothing may be replaced, or the two names are one, a rename leaves the destination
    as it is. -/
theorem renamed_of_not_replaceable {v' : Volume} (hs : StageIntact v r)
    (h : r.source = r.destination ∨ ¬ Replaceable v r)
    (hok : v.renamed r.noreplace r.source r.destination = .ok v') :
    v'.names.get r.destination = v.names.get r.destination := by
  unfold Volume.renamed at hok
  simp only [hs.1] at hok
  cases hj : v.names.get r.destination with
  | none =>
    obtain heq | hn := h
    · rw [← heq, hs.1] at hj
      cases hj
    · exact absurd (fun j hj' => by rw [hj] at hj'; cases hj') hn
  | some j =>
    simp only [hj] at hok
    split_ifs at hok with hr hsm hd
    · cases hok
      exact hj
    obtain heq | hn := h
    · rw [← heq, hs.1] at hj
      cases hj
      exact absurd rfl hsm
    · refine absurd (fun j' hj' => ?_) hn
      rw [hj] at hj'
      cases hj'
      exact ⟨Bool.not_eq_true _ ▸ hr, hd⟩

/-- The rename is reached and replaces the destination, and its success is not reported. -/
structure LostRename (v : Volume) (f : Faults) (r : ReplaceRequest) : Prop where
  syncFile : f.syncFile = none
  dup : f.dup = none
  gate : f.gate = none
  checks : ChecksPass v f r
  distinct : r.source ≠ r.destination
  replaceable : Replaceable v r
  lost : ∃ e, f.rename = some (.lost e)

theorem replaceBlocking_of_checks (h : ChecksPass v f r) :
    replaceBlocking v f r = renameAndSync v f r r.noreplace := by
  rw [replaceBlocking, checkReplace_eq_some_iff.mpr ⟨h, rfl⟩]

theorem replaceBlocking_of_not_checks (h : ¬ ChecksPass v f r) : (replaceBlocking v f r).2 = v := by
  unfold replaceBlocking
  split
  · rfl
  · rfl
  · next b hc => exact absurd (checkReplace_eq_some_iff.mp hc).1 h

/-- An answer that denies the publication follows a rename that reported an error. -/
theorem renameAndSync_denied
    (h : (renameAndSync v f r b).1 = .rejected ∨ ∃ e, (renameAndSync v f r b).1 = .notPublished e) :
    ∃ e, v.renameat f.rename b r.source r.destination = (.error e, (renameAndSync v f r b).2) := by
  unfold renameAndSync at h ⊢
  cases hr : v.renameat f.rename b r.source r.destination with
  | mk res v' =>
    rw [hr] at h
    cases res with
    | error e => exact ⟨e, rfl⟩
    | ok =>
      simp only at h
      split_ifs at h <;> simp at h

/-- A rename that reports an error has had no effect unless the error hides a success. -/
theorem renameat_error {v' : Volume} {flt : Option RenameFault} {s dest : EntryName}
    {e : Errno} (h : v.renameat flt b s dest = (.error e, v')) :
    v' = v ∨ (flt = some (.lost e) ∧ v.renamed b s dest = .ok v') := by
  unfold Volume.renameat at h
  split at h
  · exact .inl (Prod.mk.inj h).2.symm
  · exact .inl (Prod.mk.inj h).2.symm
  · next e' v'' hok =>
    obtain ⟨he, rfl⟩ := Prod.mk.inj h
    cases he
    exact .inr ⟨rfl, hok⟩
  · cases (Prod.mk.inj h).1

/-- "Rejected" and "not published" are true: the destination holds what it held before. -/
def Truthful (v : Volume) (f : Faults) (r : ReplaceRequest) : Prop :=
  (commitStagedFile v f r).1 = .rejected ∨ (∃ e, (commitStagedFile v f r).1 = .notPublished e) →
    (commitStagedFile v f r).2.names.get r.destination = v.names.get r.destination

theorem truthful_of_unchanged (h : (commitStagedFile v f r).2 = v) : Truthful v f r := by
  intro _
  rw [h]

/-- With no fault outside the closure, the answer is that of the closure. -/
theorem commitStagedFile_eq (hs : f.syncFile = none) (hd : f.dup = none) (hg : f.gate = none) :
    commitStagedFile v f r = replaceBlocking v f r := by
  simp [commitStagedFile, renameReplaceIfUnchanged, hs, hd, hg]

theorem truthful_of_not_lost (hs : f.syncFile = none) (hdp : f.dup = none)
    (hg : f.gate = none) (h : ¬ LostRename v f r) : Truthful v f r := by
  by_cases hc : ChecksPass v f r
  · intro hd
    rw [commitStagedFile_eq hs hdp hg, replaceBlocking_of_checks hc] at hd ⊢
    obtain ⟨e, hrn⟩ := renameAndSync_denied hd
    obtain hsm | ⟨hl, hok⟩ := renameat_error hrn
    · rw [hsm]
    apply renamed_of_not_replaceable hc.stage _ hok
    by_contra hr
    rw [not_or, not_not] at hr
    exact h ⟨hs, hdp, hg, hc, hr.1, hr.2, e, hl⟩
  · apply truthful_of_unchanged
    rw [commitStagedFile_eq hs hdp hg]
    exact replaceBlocking_of_not_checks hc

theorem not_truthful_of_lost (h : LostRename v f r) : ¬ Truthful v f r := by
  obtain ⟨v', hok, hn, hold⟩ :=
    renamed_of_replaceable h.checks.stage h.distinct h.replaceable
  obtain ⟨e, hl⟩ := h.lost
  have hr : v.renameat f.rename r.noreplace r.source r.destination = (.error e, v') := by
    rw [hl]
    simp [Volume.renameat, hok]
  have hc : commitStagedFile v f r =
      (if r.noreplace ∧ e = .exist then .rejected else .notPublished e, v') := by
    rw [commitStagedFile_eq h.syncFile h.dup h.gate, replaceBlocking_of_checks h.checks,
      renameAndSync, hr]
  intro ht
  unfold Truthful at ht
  rw [hc] at ht
  have hd := ht (by split_ifs <;> simp)
  exact hold (hd.symm.trans hn)

/-- **Truthful answers.** A commit that answers "rejected" or "not published" has left the
    destination as it was, unless the rename was reached, replaced the destination and
    reported an error. The trash rename rechecks both names in this case; this one does not. -/
theorem commit_truthful_iff (v : Volume) (f : Faults) (r : ReplaceRequest) :
    Truthful v f r ↔ ¬ LostRename v f r := by
  constructor
  · intro ht hl
    exact not_truthful_of_lost hl ht
  intro h
  cases hs : f.syncFile with
  | some e =>
    apply truthful_of_unchanged
    rw [commitStagedFile, hs]
  | none =>
  cases hd : f.dup with
  | some e =>
    apply truthful_of_unchanged
    simp [commitStagedFile, renameReplaceIfUnchanged, hs, hd]
  | none =>
  cases hg : f.gate with
  | some fault =>
    -- The answer is then "durability unknown".
    intro hdn
    cases fault <;>
      simp [commitStagedFile, renameReplaceIfUnchanged, hs, hd, hg] at hdn
  | none => exact truthful_of_not_lost hs hd hg h

/-- A directory with a finished stage and no file of the target's name. -/
def stagedVolume : Volume where
  names := .put .empty (⟨1, 2⟩, "stage") ⟨1, 10⟩
  attributes _ := ⟨.regularFile, 4, 0, 0, 0, (0, 0), (0, 0)⟩
  directoryLinks _ := 2

/-- The rename takes effect and reports an input/output error; nothing else fails. -/
def lostFaults : Faults :=
  { syncFile := none, dup := none, gate := none, openSource := none, openDestination := none,
    sameParent := none, fstatSource := none, statSource := none, statDestination := none,
    rename := some (.lost (.other 5)), fstatAnchor := none, statPublished := none,
    syncParents := none }

def stagedRequest : ReplaceRequest := ⟨⟨1, 10⟩, (⟨1, 2⟩, "stage"), (⟨1, 2⟩, "file"), .missing⟩

/-- The commit answers "not published" although the target now is the staged file. -/
theorem commit_denies_published :
    (commitStagedFile stagedVolume lostFaults stagedRequest).1 = .notPublished (.other 5) ∧
    stagedVolume.names.get stagedRequest.destination = none ∧
    (commitStagedFile stagedVolume lostFaults stagedRequest).2.names.get
      stagedRequest.destination = some stagedRequest.opened := by decide

end DufsRam.RootedFs
