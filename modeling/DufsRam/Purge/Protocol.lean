import DufsRam.Lib.Machine
import DufsRam.RootedFs.Publish
import DufsRam.StateStore.Purge

/-!
# Deleting through trash

Model of a DELETE after its admission (`delete.rs`, lines 88-236), of the reconciliation of
prepared purge intents (`purge.rs`, lines 514-583) over directory entries, purge rows and
operation rows. The purge worker joins them in `Purge.Worker`.

Each task is a program counter, and each system call or transaction is one step. A call
can fail, and a failed rename or transaction may have taken effect. The process can stop
after every step; a restart forgets the tasks and recovers the store. Requests hold path
leases, so a reconciliation and a DELETE of one target never overlap. Nobody else writes,
and errors other than faults tell the truth. Calls that only read are taken together with
the decision they lead to.

A place is a directory and a name in it. The directories that hold tracked entries stay
where they are, so a stored path always leads to the same place. Below a trash directory,
only the number of entries left is modelled.
-/

namespace DufsRam.Purge

open StateStore RootedFs

/-- A name in a directory. Requests cannot name trash or quarantine entries. -/
inductive Name where
  | shared (name : String)
  | trash (id : Uuid)
  | quarantine (id : Uuid)
deriving DecidableEq

/-- A directory and a name in it. -/
abbrev Place := FileIdentity × Name

/-- `trash_path_for_id`: the trash name beside the target. -/
def trashPathForId (target : Place) (id : Uuid) : Place := (target.1, .trash id)

/-- What `fstat` reports of an inode beside its identity. -/
structure Stat where
  links : ℕ
  attributes : Attributes
deriving DecidableEq

def Stat.isDirectory (stat : Stat) : Bool := decide (stat.attributes.fileType = .directory)

/-- How a call fails: without effect, or with an effect it does not report. -/
inductive Fault where
  | fails
  | lost
deriving DecidableEq

/-! ## Tasks -/

/-- A DELETE between its steps. -/
inductive DeletePhase where
  /-- The intent is recorded. -/
  | prepared
  /-- The operation is marked as started. -/
  | started
  /-- The rename reported success. -/
  | renamed
  /-- The rename reported an error. -/
  | renameFailed
  /-- The target was not moved: the intent is to be removed. -/
  | notMoved
  /-- The move is verified and durable. -/
  | moved (revision : Digest)
  /-- The job is ready: the operation is to be completed. -/
  | ready
deriving DecidableEq

structure DeleteTask where
  target : Place
  expected : FileIdentity
  expectedStat : Stat
  key : PurgeJobKey
  operation : OperationKey
  lease : Uuid
  phase : DeletePhase
deriving DecidableEq

def DeleteTask.trash (t : DeleteTask) : Place := trashPathForId t.target t.key.id

/-- A reconciliation that holds its lease. -/
inductive ReconcilePhase where
  | leased
  | occupied
  | vacant
deriving DecidableEq

structure Reconciler where
  key : PurgeJobKey
  target : Place
  trash : Place
  phase : ReconcilePhase
deriving DecidableEq

/-- Where the slices of a purge are. -/
inductive SlicePhase where
  /-- The entry is pinned, nothing is removed. -/
  | captured
  /-- Entries below it are being removed. -/
  | deleting
  /-- The entry itself may be removed. -/
  | emptied
  /-- The entry has a quarantine name and is to be removed there. -/
  | isolated
  /-- A slice met `InvalidData`: the entry is to be quarantined. -/
  | ambiguous
deriving DecidableEq

/-- `TrashEntry` (`rooted_fs/purge.rs`, lines 38-58): the name changes when the entry is
    moved; `identity` is also the inode of `root_anchor`. -/
structure TrashEntry where
  place : Place
  isDir : Bool
  identity : FileIdentity
  trashRevision : Digest
  phase : SlicePhase
deriving DecidableEq

/-- The work on a claimed job. -/
inductive WorkPhase where
  /-- To be opened, or opened again after a failure. -/
  | opening
  | slicing (entry : TrashEntry)
  | quarantining
  | deferring
  /-- The row is to be removed; `quarantined` if a quarantine came before, which reports a
      row that is gone as a failure. -/
  | completing (quarantined : Bool)
deriving DecidableEq

structure PurgeWork where
  key : PurgeJobKey
  job : PurgeRow Place
  phase : WorkPhase
deriving DecidableEq

/-- Maintenance at a trash name it has seen (`maintenance.rs`, lines 836-904). -/
inductive SweepPhase where
  | visited
  /-- The store has no row for the path. -/
  | unbound
  | purging (entry : TrashEntry)
deriving DecidableEq

structure Sweep where
  place : Place
  phase : SweepPhase
deriving DecidableEq

/-- The persistent stores and the running tasks. Ghost state: the inodes removed by purge
    work, the object and the target of each DELETE that came to record its intent, and the
    keys that were given out. -/
structure System where
  names : Table Place FileIdentity
  stat : FileIdentity → Stat
  children : FileIdentity → ℕ
  jobs : PurgeJobs Place
  operations : Operations
  deletes : Table ℕ DeleteTask
  reconcilers : Table ℕ Reconciler
  works : Table ℕ PurgeWork
  sweeps : Table ℕ Sweep
  nextTask : ℕ
  purged : List FileIdentity
  intents : List (FileIdentity × Place)
  usedKeys : List PurgeJobKey

namespace System

variable (s : System)

def replacementTargetIdentity (i : FileIdentity) : ExistingReplacementTarget :=
  ⟨i, (s.stat i).links, (s.stat i).attributes⟩

/-- `renameat_with(…, NOREPLACE)` within a directory. The rename may change the times of
    the inode: `stat` is what it reports afterwards. -/
def renameNoreplace (source destination : Place) (stat : Stat) : Except Errno System :=
  match s.names.get source with
  | none => .error .noent
  | some i =>
    if (s.names.get destination).isSome then .error .exist
    else .ok { s with
      names := (s.names.erase source).put destination i
      stat := Function.update s.stat i { stat with
        attributes := { stat.attributes with fileType := (s.stat i).attributes.fileType } } }

def putDelete (i : ℕ) (t : DeleteTask) (phase : DeletePhase) : System :=
  { s with deletes := s.deletes.put i { t with phase := phase } }

def endDelete (i : ℕ) : System := { s with deletes := s.deletes.erase i }

def putReconciler (i : ℕ) (r : Reconciler) (phase : ReconcilePhase) : System :=
  { s with reconcilers := s.reconcilers.put i { r with phase := phase } }

def endReconciler (i : ℕ) : System := { s with reconcilers := s.reconcilers.erase i }

def putWork (i : ℕ) (w : PurgeWork) (phase : WorkPhase) : System :=
  { s with works := s.works.put i { w with phase := phase } }

def endWork (i : ℕ) : System := { s with works := s.works.erase i }

def putSweep (i : ℕ) (place : Place) (phase : SweepPhase) : System :=
  { s with sweeps := s.sweeps.put i ⟨place, phase⟩ }

def endSweep (i : ℕ) : System := { s with sweeps := s.sweeps.erase i }

end System

/-! ## Steps -/

/-- The configuration, and the digest of an identity (`purge_revision`, SHA-256). -/
structure Config where
  limits : Limits
  purgeLimits : PurgeLimits
  purgeRevision : ExistingReplacementTarget → Digest

/-- The state after a call: a call that fails without effect leaves the old one. -/
def applied {α : Type} (fault : Option Fault) (old new : α) : α :=
  if fault = some .fails then old else new

/-- The steps of a DELETE. -/
inductive DeleteEvent where
  | prepare (target : Place) (expected : FileIdentity) (expectedStat : Stat) (key : PurgeJobKey)
      (operation : OperationKey) (lease : Uuid) (now : ℤ) (fault : Option Fault)
  | markCommitStarted (task : ℕ) (now : ℤ) (fault : Option Fault)
  /-- `checkFault`: a call before the rename fails. -/
  | rename (task : ℕ) (checkFault : Bool) (fault : Option Fault) (stat : Stat)
  | classify (task : ℕ) (fault : Bool)
  | verify (task : ℕ) (fault : Bool)
  | markReady (task : ℕ) (now : ℤ) (fault : Option Fault)
  | removeIntent (task : ℕ) (fault : Option Fault)
  | complete (task : ℕ) (now : ℤ) (outcome : StoredOutcome) (fault : Option Fault)
deriving DecidableEq

namespace System

/-- No request or reconciliation holds a lease on the target, and no prepared intent is
    recorded for it. -/
def admits (s : System) (target : Place) : Bool :=
  !(s.deletes.any fun _ t => decide (t.target = target)) &&
  !(s.reconcilers.any fun _ r => decide (r.target = target)) &&
  !(s.jobs.any fun _ row => decide (row.state = .prepared ∧ row.targetPath = target))

/-- Some tracked entry is in the directory `i`. -/
def holdsEntries (s : System) (i : FileIdentity) : Bool := s.names.any fun p _ => decide (p.1 = i)

/-- `prepare_purge_with_identity` (`purge.rs`, lines 135-180): `Uuid::new_v4` gives an id
    that was not used before. -/
def prepare (c : Config) (s : System) (target : Place) (expected : FileIdentity)
    (expectedStat : Stat) (key : PurgeJobKey) (operation : OperationKey) (lease : Uuid)
    (now : ℤ) (fault : Option Fault) : System :=
  let row := PurgeRow.prepared target (trashPathForId target key.id) expected
    expectedStat.isDirectory now
  let (result, jobs) := preparePurgeJob c.purgeLimits s.jobs key row
  let s := { s with
    jobs := applied fault s.jobs jobs
    usedKeys := key :: s.usedKeys
    intents := if s.names.get target = some expected then (expected, target) :: s.intents
      else s.intents }
  if result = .inserted ∧ fault = none then
    { s with
      nextTask := s.nextTask + 1
      deletes := s.deletes.put s.nextTask
        ⟨target, expected, expectedStat, key, operation, lease, .prepared⟩ }
  else s

/-- `move_to_trash_with_expected_identity_outcome` (`rooted_fs.rs`, lines 2068-2236) up to
    the result of the rename. -/
def moveToTrash (s : System) (i : ℕ) (t : DeleteTask) (checkFault : Bool)
    (fault : Option Fault) (stat : Stat) : System :=
  if checkFault ∨ s.names.get t.target ≠ some t.expected ∨ s.stat t.expected ≠ t.expectedStat then
    s.putDelete i t .notMoved
  else
    match fault, s.renameNoreplace t.target t.trash stat with
    | some .fails, _ => s.putDelete i t .renameFailed
    | _, .error _ => s.putDelete i t .renameFailed
    | some .lost, .ok s' => s'.putDelete i t .renameFailed
    | none, .ok s' => s'.putDelete i t .renamed

/-- One step of a DELETE. A task that ends with an error leaves its intent to a
    reconciliation. -/
def deleteStep (c : Config) (s : System) : DeleteEvent → Option System
  | .prepare target expected expectedStat key operation lease now fault =>
    match target.2 with
    | .shared _ =>
      if s.admits target ∧ s.holdsEntries expected = false ∧ ∀ k ∈ s.usedKeys, k.id ≠ key.id then
        some (s.prepare c target expected expectedStat key operation lease now fault)
      else none
    | _ => none
  | .markCommitStarted i now fault =>
    match s.deletes.get i with
    | some t =>
      if t.phase = .prepared then
        let (marked, operations) :=
          markOperationCommitStarted now s.operations t.operation t.lease
        let s := { s with operations := applied fault s.operations operations }
        some (if fault = none ∧ marked then s.putDelete i t .started else s.endDelete i)
      else none
    | none => none
  | .rename i checkFault fault stat =>
    match s.deletes.get i with
    | some t => if t.phase = .started then some (s.moveToTrash i t checkFault fault stat) else none
    | none => none
  | .classify i fault =>
    match s.deletes.get i with
    | some t =>
      if t.phase = .renameFailed then
        some (if fault = false ∧ s.names.get t.target = some t.expected ∧
            s.names.get t.trash ≠ some t.expected then s.putDelete i t .notMoved
          else s.endDelete i)
      else none
    | none => none
  | .verify i fault =>
    match s.deletes.get i with
    | some t =>
      if t.phase = .renamed then
        some (if fault = false ∧ s.names.get t.trash = some t.expected then
            s.putDelete i t (.moved (c.purgeRevision (s.replacementTargetIdentity t.expected)))
          else s.endDelete i)
      else none
    | none => none
  | .markReady i now fault =>
    match s.deletes.get i with
    | some t =>
      match t.phase with
      | .moved revision =>
        let (marked, jobs) := markPurgeJobReady now s.jobs t.key revision
        let s := { s with jobs := applied fault s.jobs jobs }
        some (if fault = none ∧ marked then s.putDelete i t .ready else s.endDelete i)
      | _ => none
    | none => none
  | .removeIntent i fault =>
    match s.deletes.get i with
    | some t =>
      if t.phase = .notMoved then
        let jobs := applied fault s.jobs (removePurgeJob s.jobs t.key).2
        some ({ s with jobs := jobs }.endDelete i)
      else none
    | none => none
  | .complete i now outcome fault =>
    match s.deletes.get i with
    | some t =>
      if t.phase = .ready then
        match completeOperation c.limits now s.operations t.operation t.lease outcome with
        | .ok (_, operations) =>
          some ({ s with operations := applied fault s.operations operations }.endDelete i)
        | .error _ => some (s.endDelete i)
      else none
    | none => none

end System

/-! ## Reconciliation -/

/-- What a call to quarantine came to: nothing is left at the trash path, the name was in
    use and another is tried, or an error. -/
inductive QuarantineResult where
  | done
  | retry
  | failed
deriving DecidableEq

/-- `quarantine_internal_trash` (`rooted_fs.rs`, lines 2333-2386) for one of the names it
    tries; `last` for the sixteenth. -/
def System.quarantineInternalTrash (s : System) (trash : Place) (id : Uuid)
    (fault : Option Fault) (last syncFault : Bool) (stat : Stat) : QuarantineResult × System :=
  match fault, s.renameNoreplace trash (trash.1, .quarantine id) stat with
  | some .fails, _ => (.failed, s)
  | _, .error .noent => (.done, s)
  | _, .error _ => (if last then .failed else .retry, s)
  | some .lost, .ok s' => (.failed, s')
  | none, .ok s' => (if syncFault then .failed else .done, s')

/-- The steps of a reconciliation. -/
inductive ReconcileEvent where
  | acquire (key : PurgeJobKey)
  | inspect (task : ℕ) (fault : Bool)
  | quarantine (task : ℕ) (id : Uuid) (fault : Option Fault) (last syncFault : Bool) (stat : Stat)
  | remove (task : ℕ) (fault : Option Fault)
deriving DecidableEq

namespace System

/-- No task holds a lease on the target or the trash path of `row`. -/
def leaseFree (s : System) (row : PurgeRow Place) : Bool :=
  !(s.deletes.any fun _ t => decide (t.target = row.targetPath ∨ t.trash = row.trashPath)) &&
  !(s.reconcilers.any fun _ r => decide (r.target = row.targetPath ∨ r.trash = row.trashPath))

/-- One step of `reconcile_prepared_purge_job` (`purge.rs`, lines 514-563). -/
def reconcileStep (s : System) : ReconcileEvent → Option System
  | .acquire key =>
    -- The row is read again once the lease is held (lines 529-534).
    match s.jobs.get key with
    | some row =>
      if row.state = .prepared ∧ s.leaseFree row then
        some { s with
          nextTask := s.nextTask + 1
          reconcilers := s.reconcilers.put s.nextTask
            ⟨key, row.targetPath, row.trashPath, .leased⟩ }
      else none
    | none => none
  | .inspect i fault =>
    match s.reconcilers.get i with
    | some r =>
      if r.phase = .leased then
        some (if fault then s.endReconciler i
          else if (s.names.get r.trash).isSome then s.putReconciler i r .occupied
          else s.putReconciler i r .vacant)
      else none
    | none => none
  | .quarantine i id fault last syncFault stat =>
    match s.reconcilers.get i with
    | some r =>
      if r.phase = .occupied then
        match s.quarantineInternalTrash r.trash id fault last syncFault stat with
        | (.done, s') => some (s'.putReconciler i r .vacant)
        | (.retry, s') => some s'
        | (.failed, s') => some (s'.endReconciler i)
      else none
    | none => none
  | .remove i fault =>
    match s.reconcilers.get i with
    | some r =>
      if r.phase = .vacant then
        let jobs := applied fault s.jobs (removePurgeJob s.jobs r.key).2
        some ({ s with jobs := jobs }.endReconciler i)
      else none
    | none => none

end System

end DufsRam.Purge
