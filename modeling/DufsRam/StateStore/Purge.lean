import Mathlib
import DufsRam.PathCoordinator.Conflict
import DufsRam.StateStore.Operation

/-!
# Purge jobs in the state store

Model of the transactions on the table `purge_jobs` (`state_store/purge.rs`) and of what
recovery does to it (`database.rs`, lines 1514-1537). A row is the intent to delete what
a trash path holds. Each function is one transaction.
-/

namespace DufsRam.StateStore

open scoped IntOrder

/-- `PurgeJobKey` (`model.rs`, lines 233-237). -/
structure PurgeJobKey where
  owner : Digest
  id : Uuid
deriving DecidableEq

/-- `StoredPurgeState` (`model.rs`, lines 239-245). -/
inductive StoredPurgeState where
  | prepared
  | ready
  | claimed
deriving DecidableEq

/-- A row of `purge_jobs`; the fields of `StoredPurgeJob` (`model.rs`, lines 258-268) and
    the times the queries read. `π` is the type of stored paths. -/
structure PurgeRow (π : Type) where
  targetPath : π
  trashPath : π
  sourceIdentity : FileIdentity
  trashRevision : Option Digest
  isDirectory : Bool
  state : StoredPurgeState
  attempts : ℕ
  nextAttemptAtMs : ℤ
  createdAtMs : ℤ
deriving DecidableEq

abbrev PurgeJobs (π : Type) := Table PurgeJobKey (PurgeRow π)

/-- `StorePurgeJob` (`model.rs`, lines 291-297). -/
inductive StorePurgeJob where
  | inserted
  | existing
  | conflict
  | full
deriving DecidableEq

/-- The fields of `Limits` that purge jobs read (`state_store.rs`, lines 212-221). -/
structure PurgeLimits where
  purgeCapacity : ℕ
  purgePerOwner : ℕ

variable {π : Type} [DecidableEq π]

/-- The new row of a job. -/
def PurgeRow.prepared (targetPath trashPath : π) (sourceIdentity : FileIdentity)
    (isDirectory : Bool) (now : ℤ) : PurgeRow π :=
  ⟨targetPath, trashPath, sourceIdentity, none, isDirectory, .prepared, 0, now, now⟩

/-- `prepare_purge_job` (lines 5-72). -/
def preparePurgeJob (limits : PurgeLimits) (jobs : PurgeJobs π) (key : PurgeJobKey)
    (proposed : PurgeRow π) : StorePurgeJob × PurgeJobs π :=
  match jobs.get key with
  | some existing =>
    (if existing.targetPath = proposed.targetPath ∧ existing.trashPath = proposed.trashPath ∧
        existing.sourceIdentity = proposed.sourceIdentity ∧
        existing.isDirectory = proposed.isDirectory then .existing else .conflict, jobs)
  | none =>
    if jobs.any fun _ row => decide (row.trashPath = proposed.trashPath) then (.conflict, jobs)
    else if limits.purgeCapacity ≤ jobs.countWhere (fun _ _ => true) ∨
        limits.purgePerOwner ≤ jobs.countWhere (fun k _ => decide (k.owner = key.owner)) then
      (.full, jobs)
    else (.inserted, jobs.put key proposed)

/-- `mark_purge_job_ready` (lines 143-176). -/
def markPurgeJobReady (now : ℤ) (jobs : PurgeJobs π) (key : PurgeJobKey) (revision : Digest) :
    Bool × PurgeJobs π :=
  match jobs.get key with
  | none => (false, jobs)
  | some row =>
    if row.state = .prepared then
      (true, jobs.put key
        { row with state := .ready, trashRevision := some revision, nextAttemptAtMs := now })
    else (decide (row.trashRevision = some revision), jobs)

/-- The update of `claim_due_purge_job` (lines 178-220) for the row it selects. -/
def claimPurgeJob (now : ℤ) (jobs : PurgeJobs π) (key : PurgeJobKey) :
    Option (PurgeRow π × PurgeJobs π) :=
  match jobs.get key with
  | none => none
  | some row =>
    if row.state = .ready ∧ row.nextAttemptAtMs ≤ now then
      let claimed := { row with state := .claimed }
      some (claimed, jobs.put key claimed)
    else none

/-- The order in which due jobs are claimed (line 187). Digests and ids are compared byte by
    byte, the first byte first. -/
def purgeOrder (job : PurgeJobKey × PurgeRow π) : ℤ ×ₗ ℤ ×ₗ ℕ ×ₗ ℕ :=
  toLex (job.2.nextAttemptAtMs,
    toLex (job.2.createdAtMs, toLex (job.1.owner.toNat, job.1.id.toNat)))

/-- The selection of `claim_due_purge_job` (lines 183-196). -/
def selectDuePurgeJob (now : ℤ) (jobs : PurgeJobs π) : Option (PurgeJobKey × PurgeRow π) :=
  (jobs.rows.filter fun job =>
    decide (job.2.state = .ready) && decide (job.2.nextAttemptAtMs ≤ now)).argmin purgeOrder

/-- `claim_due_purge_job` (lines 178-220): the claimed job, if one was due. -/
def claimDuePurgeJob (now : ℤ) (jobs : PurgeJobs π) :
    Except String (Option (PurgeJobKey × PurgeRow π) × PurgeJobs π) :=
  match selectDuePurgeJob now jobs with
  | none => .ok (none, jobs)
  | some (key, _) =>
    match claimPurgeJob now jobs key with
    | none => .error "A selected purge job could not be claimed"
    | some (claimed, jobs) => .ok (some (key, claimed), jobs)

/-- `retry_purge_job` (lines 222-246). -/
def retryPurgeJob (nextAttempt : ℤ) (jobs : PurgeJobs π) (key : PurgeJobKey) :
    Bool × PurgeJobs π :=
  match jobs.get key with
  | none => (false, jobs)
  | some row =>
    if row.state = .claimed then
      (true, jobs.put key
        { row with
          state := .ready
          attempts := min (row.attempts + 1) 4294967295
          nextAttemptAtMs := nextAttempt })
    else (false, jobs)

/-- `complete_purge_job` (lines 248-263). -/
def completePurgeJob (jobs : PurgeJobs π) (key : PurgeJobKey) : Bool × PurgeJobs π :=
  match jobs.get key with
  | none => (false, jobs)
  | some row => if row.state = .claimed then (true, jobs.erase key) else (false, jobs)

/-- `remove_purge_job` (lines 265-278). -/
def removePurgeJob (jobs : PurgeJobs π) (key : PurgeJobKey) : Bool × PurgeJobs π :=
  ((jobs.get key).isSome, jobs.erase key)

/-- What those of `recover_database` make of a row. -/
def PurgeRow.recover (row : PurgeRow π) (now : ℤ) : PurgeRow π :=
  if row.state = .claimed ∨ row.state = .ready ∧ now < row.nextAttemptAtMs then
    { row with state := .ready, nextAttemptAtMs := now }
  else row

/-- The statements of `recover_database` on `purge_jobs` (`database.rs`, lines 1514-1537). -/
def recoverPurgeJobs (now : ℤ) (jobs : PurgeJobs π) : PurgeJobs π :=
  (jobs.updateWhere (fun _ row => decide (row.state = .claimed))
    fun row => { row with state := .ready, nextAttemptAtMs := now }).updateWhere
    (fun _ row => decide (row.state = .ready ∧ now < row.nextAttemptAtMs))
    fun row => { row with nextAttemptAtMs := now }

end DufsRam.StateStore
