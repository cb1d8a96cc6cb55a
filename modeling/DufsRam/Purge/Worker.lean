import DufsRam.Purge.Protocol

/-!
# Purging trash

Model of a purge slice (`rooted_fs/purge.rs`, lines 152-764, 975-1016 and 1107-1145), of the
durable work on a claimed job (`purge.rs`, lines 328-492) and of the sweep for trash that no
row is about (`maintenance.rs`, lines 836-904).

A slice may stop between any two of its steps. The entry is first moved to a quarantine
name and removed there, so an interrupted removal leaves it quarantined.
-/

namespace DufsRam.Purge

open StateStore RootedFs

/-! ## Slices -/

/-- `TrashPurgeProgress`, or the error of a slice: `InvalidData` or another kind. -/
inductive SliceResult where
  | pending (entry : TrashEntry)
  | complete
  | invalidData
  | error
deriving DecidableEq

/-- The steps of the slices of one entry. -/
inductive SliceEvent where
  | begin (statFault openFault recheckFault syncFault : Bool)
  /-- An entry below the directory is removed, or an error is met (`true` for
      `InvalidData`), or both. -/
  | removeChild (removed : Bool) (error : Option Bool) (stat : Stat)
  | finishChildren (error : Option Bool) (syncFault : Bool)
  | isolate (id : Uuid) (fault : Option Fault) (last syncFault : Bool) (stat : Stat)
  | unlink (verifyFault : Bool) (fault : Option Fault) (syncFault : Bool)
  | quarantine (id : Uuid) (fault : Option Fault) (last syncFault : Bool) (stat : Stat)
deriving DecidableEq

namespace TrashEntry

variable (e : TrashEntry)

def enter (phase : SlicePhase) : SliceResult := .pending { e with phase := phase }

/-- An error of `purge_slice_blocking`: for `InvalidData`, `purge_slice` quarantines the
    entry before it returns (lines 170-175). -/
def fail (invalidData : Bool) : SliceResult := if invalidData then e.enter .ambiguous else .error

/-- The entry is gone: the directory is synchronised before the slice reports it. -/
def gone (syncFault : Bool) : SliceResult := if syncFault then .error else .complete

/-- The checks before anything is removed (lines 205-246 for a file, 284-333 for a
    directory, which is opened before its revision is compared). -/
def begin (c : Config) (s : System) (statFault openFault recheckFault syncFault : Bool) :
    SliceResult :=
  let anchored := s.replacementTargetIdentity e.identity
  let revisionKept := decide (c.purgeRevision anchored = e.trashRevision)
  let named := s.names.get e.place
  let differs := named.any fun i => decide (s.replacementTargetIdentity i ≠ anchored)
  if e.isDir then
    if openFault then
      if recheckFault then .error
      else if named = none then gone syncFault
      else e.fail differs
    else if named = none then gone syncFault
    else if statFault then .error
    else if revisionKept ∧ differs = false then e.enter .deleting
    else e.enter .ambiguous
  else if statFault then .error
  else if revisionKept = false then e.enter .ambiguous
  else if openFault then e.fail (!recheckFault && differs)
  else if named = none then gone syncFault
  else if differs then e.enter .ambiguous
  else e.enter .emptied

/-- The state after an entry below the directory is removed: the directory keeps its type
    and reports `stat`. -/
def childRemoved (s : System) (stat : Stat) : System :=
  { s with
    children := Function.update s.children e.identity (s.children e.identity - 1)
    stat := Function.update s.stat e.identity { stat with
      attributes := { stat.attributes with
        fileType := (s.stat e.identity).attributes.fileType } } }

/-- The checks at the end of a directory (lines 438-510). -/
def finishChildren (s : System) (error : Option Bool) (syncFault : Bool) : SliceResult :=
  match error, s.names.get e.place with
  | some invalidData, _ => e.fail invalidData
  | none, none => gone syncFault
  | none, some i => if i = e.identity then e.enter .emptied else e.enter .ambiguous

/-- The rename of `isolate_anchored_entry_for_unlink` (lines 1113-1125) for one of the names
    it tries. The entry has its new name before anything else can fail. -/
def isolate (s : System) (id : Uuid) (fault : Option Fault) (last syncFault : Bool)
    (stat : Stat) : SliceResult × System :=
  let place := (e.place.1, Name.quarantine id)
  match fault, s.renameNoreplace e.place place stat with
  | some .fails, _ => (.error, s)
  | _, .error .noent => (gone syncFault, s)
  | _, .error _ => (if last then .error else .pending e, s)
  | some .lost, .ok s' => (.error, s')
  | none, .ok s' => (.pending { e with place := place, phase := .isolated }, s')

/-- The isolated entry is removed for good. -/
def removed (s : System) : System :=
  { s with names := s.names.erase e.place, purged := e.identity :: s.purged }

/-- The verification of the isolated entry (lines 1127-1138) and its removal (lines 260-270
    and 533-549). Every failure up to the removal is `InvalidData`. -/
def unlink (s : System) (verifyFault : Bool) (fault : Option Fault) (syncFault : Bool) :
    SliceResult × System :=
  if verifyFault ∨ s.names.get e.place ≠ some e.identity ∨ fault = some .fails then
    (e.enter .ambiguous, s)
  else if fault = some .lost then (e.enter .ambiguous, e.removed s)
  else (gone syncFault, e.removed s)

/-- `quarantine_after_identity_error_blocking` (lines 975-1016): an error of its own takes
    the place of the first one. -/
def quarantine (s : System) (id : Uuid) (fault : Option Fault) (last syncFault : Bool)
    (stat : Stat) : SliceResult × System :=
  let synced := if syncFault then SliceResult.error else .invalidData
  match e.place.2 with
  | .quarantine _ => (synced, s)
  | _ =>
    match fault, s.renameNoreplace e.place (e.place.1, .quarantine id) stat with
    | some .fails, _ => (.error, s)
    | _, .error .noent => (synced, s)
    | _, .error _ => (if last then .error else .pending e, s)
    | some .lost, .ok s' => (.error, s')
    | none, .ok s' => (synced, s')

/-- One step of the slices of an entry. -/
def sliceStep (c : Config) (s : System) : SliceEvent → Option (SliceResult × System)
  | .begin statFault openFault recheckFault syncFault =>
    if e.phase = .captured then
      some (e.begin c s statFault openFault recheckFault syncFault, s)
    else none
  | .removeChild removed error stat =>
    if e.phase = .deleting ∧ 0 < s.children e.identity then
      some (match error with | some invalidData => e.fail invalidData | none => .pending e,
        if removed then e.childRemoved s stat else s)
    else none
  | .finishChildren error syncFault =>
    if e.phase = .deleting ∧ s.children e.identity = 0 then
      some (e.finishChildren s error syncFault, s)
    else none
  | .isolate id fault last syncFault stat =>
    if e.phase = .emptied then some (e.isolate s id fault last syncFault stat) else none
  | .unlink verifyFault fault syncFault =>
    if e.phase = .isolated then some (e.unlink s verifyFault fault syncFault) else none
  | .quarantine id fault last syncFault stat =>
    if e.phase = .ambiguous then some (e.quarantine s id fault last syncFault stat) else none

end TrashEntry

/-! ## Durable work -/

/-- The steps of the work on a claimed job. -/
inductive WorkEvent where
  | claim (key : PurgeJobKey) (now : ℤ) (fault : Option Fault)
  | capture (work : ℕ) (storeFault fault : Bool)
  | slice (work : ℕ) (e : SliceEvent)
  | quarantine (work : ℕ) (id : Uuid) (fault : Option Fault) (last syncFault : Bool) (stat : Stat)
  | defer (work : ℕ) (nextAttempt : ℤ) (fault : Option Fault)
  | complete (work : ℕ) (fault : Option Fault)
deriving DecidableEq

namespace System

/-- `open_purge_work` (`purge.rs`, lines 340-398) up to the call its result leads to, with
    `capture_entry_for_purge_with_type_blocking` (`rooted_fs.rs`, lines 2438-2503). -/
def openPurgeWork (c : Config) (s : System) (row : PurgeRow Place) (fault : Bool) : WorkPhase :=
  match row.trashRevision with
  | none => .quarantining
  | some revision =>
    if fault then .deferring
    else
      match s.names.get row.trashPath with
      | none => .completing false
      | some i =>
        if (s.stat i).isDirectory = row.isDirectory ∧
            c.purgeRevision (s.replacementTargetIdentity i) = revision ∧
            i = row.sourceIdentity then
          .slicing ⟨row.trashPath, row.isDirectory, i, revision, .captured⟩
        else .quarantining

/-- What the result of a slice leads to in `process_purge_work` (`purge.rs`,
    lines 400-441). -/
def processPurgeWork : SliceResult → WorkPhase
  | .pending entry => .slicing entry
  | .complete => .completing false
  | .invalidData => .quarantining
  | .error => .deferring

/-- One step of the work on a claimed job. -/
def workStep (c : Config) (s : System) : WorkEvent → Option System
  | .claim key now fault =>
    match claimPurgeJob now s.jobs key with
    | some (job, jobs) =>
      let s := { s with jobs := applied fault s.jobs jobs }
      some (if fault = none then
          { s with
            nextTask := s.nextTask + 1
            works := s.works.put s.nextTask ⟨key, job, .opening⟩ }
        else s)
    | none => none
  | .capture i storeFault fault =>
    match s.works.get i with
    | some w =>
      if w.phase = .opening then
        -- `retry_claimed_purge_work` (lines 328-338) reads the row again. After a claim the
        -- row is the one that was claimed.
        if storeFault then some s
        else
          match s.jobs.get w.key with
          | some row =>
            some (if row.state = .claimed then
                s.putWork i { w with job := row } (s.openPurgeWork c row fault)
              else s.endWork i)
          | none => some (s.endWork i)
      else none
    | none => none
  | .slice i event =>
    match s.works.get i with
    | some w =>
      match w.phase with
      | .slicing entry =>
        (entry.sliceStep c s event).map fun r => r.2.putWork i w (processPurgeWork r.1)
      | _ => none
    | none => none
  | .quarantine i id fault last syncFault stat =>
    match s.works.get i with
    | some w =>
      if w.phase = .quarantining then
        match s.quarantineInternalTrash w.job.trashPath id fault last syncFault stat with
        | (.done, s') => some (s'.putWork i w (.completing true))
        | (.retry, s') => some s'
        | (.failed, s') => some (s'.putWork i w .opening)
      else none
    | none => none
  | .defer i nextAttempt fault =>
    match s.works.get i with
    | some w =>
      if w.phase = .deferring then
        let (deferred, jobs) := retryPurgeJob nextAttempt s.jobs w.key
        let s := { s with jobs := applied fault s.jobs jobs }
        some (if fault = none ∧ deferred then s.endWork i else s.putWork i w .opening)
      else none
    | none => none
  | .complete i fault =>
    match s.works.get i with
    | some w =>
      match w.phase with
      | .completing quarantined =>
        let (completed, jobs) := completePurgeJob s.jobs w.key
        let s := { s with jobs := applied fault s.jobs jobs }
        -- Only after a quarantine is a row that is gone an error (lines 465-469).
        some (if fault = none ∧ (completed ∨ quarantined = false) then s.endWork i
          else s.putWork i w .opening)
      | _ => none
    | none => none

end System

/-! ## Sweep -/

/-- The steps of maintenance at a trash name. -/
inductive SweepEvent where
  | visit (place : Place)
  | check (sweep : ℕ) (fault : Bool)
  | capture (sweep : ℕ) (fault : Bool)
  | slice (sweep : ℕ) (e : SliceEvent)
  /-- The entry is too young or in the snapshot of tracked trash, or the queue is full. -/
  | skip (sweep : ℕ)
deriving DecidableEq

namespace System

/-- One step of the trash branch of `collect_stale_internal_files_batch` (`maintenance.rs`,
    lines 836-904), and of the slices of an orphan (`purge.rs`, lines 257-274). -/
def sweepStep (c : Config) (s : System) : SweepEvent → Option System
  | .visit place =>
    match place.2, s.names.get place with
    | .trash _, some i =>
      if (s.stat i).attributes.fileType = .symlink then none
      else some { s with
        nextTask := s.nextTask + 1
        sweeps := s.sweeps.put s.nextTask ⟨place, .visited⟩ }
    | _, _ => none
  | .check i fault =>
    match s.sweeps.get i with
    | some w =>
      if w.phase = .visited then
        -- `should_preserve_stale_state_path` (lines 692-721) keeps what it cannot check.
        some (if fault ∨ s.jobs.any fun _ row => decide (row.trashPath = w.place) then s.endSweep i
          else s.putSweep i w.place .unbound)
      else none
    | none => none
  | .capture i fault =>
    match s.sweeps.get i with
    | some w =>
      if w.phase = .unbound then
        match s.names.get w.place with
        | some j =>
          some (if fault then s.endSweep i
            else s.putSweep i w.place (.purging ⟨w.place, (s.stat j).isDirectory, j,
              c.purgeRevision (s.replacementTargetIdentity j), .captured⟩))
        | none => some (s.endSweep i)
      else none
    | none => none
  | .slice i event =>
    match s.sweeps.get i with
    | some w =>
      match w.phase with
      | .purging entry =>
        (entry.sliceStep c s event).map fun r =>
          match r.1 with
          | .pending entry => r.2.putSweep i w.place (.purging entry)
          | _ => r.2.endSweep i
      | _ => none
    | none => none
  | .skip i => (s.sweeps.get i).map fun _ => s.endSweep i

/-! ## The system -/

/-- The process stops and starts again: the tasks are lost and the store is recovered. -/
def restart (c : Config) (s : System) (now : ℤ) : Option System :=
  match recoverOperations c.limits now s.operations with
  | .ok operations =>
    some { s with
      operations := operations
      jobs := recoverPurgeJobs now s.jobs
      deletes := .empty
      reconcilers := .empty
      works := .empty
      sweeps := .empty }
  | .error _ => none

/-- Another request makes an entry at a free shared name. An inode number that is in use
    again is a new object, so nothing is remembered of the old one. -/
def create (s : System) (place : Place) (i : FileIdentity) (stat : Stat) (children : ℕ) :
    Option System :=
  match place.2 with
  | .shared _ =>
    if s.names.get place = none ∧ (s.names.any fun _ j => decide (j = i ∨ j = place.1)) = false ∧
        s.holdsEntries i = false ∧ i ≠ place.1 then
      some { s with
        names := s.names.put place i
        stat := Function.update s.stat i stat
        children := Function.update s.children i children
        purged := s.purged.filter fun j => decide (j ≠ i)
        intents := s.intents.filter fun intent => decide (intent.1 ≠ i) }
    else none
  | _ => none

end System

inductive Event where
  | delete (e : DeleteEvent)
  | reconcile (e : ReconcileEvent)
  | work (e : WorkEvent)
  | sweep (e : SweepEvent)
  | restart (now : ℤ)
  | create (place : Place) (inode : FileIdentity) (stat : Stat) (children : ℕ)
deriving DecidableEq

def System.step (c : Config) (s : System) : Event → Option System
  | .delete e => s.deleteStep c e
  | .reconcile e => s.reconcileStep e
  | .work e => s.workStep c e
  | .sweep e => s.sweepStep c e
  | .restart now => s.restart c now
  | .create place inode stat children => s.create place inode stat children

/-- A volume with no tracked entries, and any operation rows. -/
def machine (c : Config) (operations : Operations) (stat : FileIdentity → Stat) :
    Machine System Event where
  init :=
    { names := .empty, stat := stat, children := fun _ => 0, jobs := .empty,
      operations := operations, deletes := .empty, reconcilers := .empty, works := .empty,
      sweeps := .empty, nextTask := 0, purged := [], intents := [], usedKeys := [] }
  step := System.step c

end DufsRam.Purge
