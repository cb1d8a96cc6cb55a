import Mathlib
import DufsRam.Upload.Transfer

/-!
# Uploads and storage maintenance

The uploads of one stage together with what storage maintenance does to it: the cleanup of
expired sessions (`maintenance.rs`, lines 461-690), the snapshot of tracked stages (lines
314-397) and the scan for orphaned stages (lines 723-993). Between them stand the set of active
entries, in which uploads register the stage (`upload/prepare.rs`, lines 17-82) and maintenance
sets a marker (`maintenance.rs`, lines 108-140), and the staging directory, whose inode is part of
the key of every entry in it.

Each access to the set, to the table and to the directory is a step of its own. The uploads and
claims of other stages share the set and the directory; which of them there are is left open.
-/

namespace DufsRam.Maintenance

open StateStore RootedFs Upload

/-! ## Keys and the active set -/

/-- `RootedEntryKey` (`rooted_fs.rs`, lines 247-251). -/
structure RootedEntryKey where
  parent : FileIdentity
  name : List UInt8
deriving DecidableEq

/-- `maintenance_marker` (lines 257-264): the name with the bytes of `"\0xczs-maintenance"`. -/
def RootedEntryKey.maintenanceMarker (key : RootedEntryKey) : RootedEntryKey :=
  { key with
    name := key.name ++
      [0, 120, 99, 122, 115, 45, 109, 97, 105, 110, 116, 101, 110, 97, 110, 99, 101] }

/-- What the uploads of one stage share, and the last component of the staging path. No component
    of a path contains a NUL. -/
structure Stage where
  config : Config
  name : List UInt8
  nul_not_mem : 0 ∉ name

/-! ## Maintenance -/

/-- `ExpiredUploadSession` (`state_store/model.rs`, lines 176-179): a row and its key. -/
structure ExpiredUploadSession where
  key : UploadSessionKey
  row : UploadRow Path
deriving DecidableEq

/-- `expired_upload_session_matches` (`state_store/upload.rs`, lines 222-239). -/
def expiredUploadSessionMatches (now : ℤ) (sessions : UploadSessions Path)
    (expected : ExpiredUploadSession) : Bool :=
  decide (expected.row.expiresAtMs ≤ now) &&
    decide (sessions.get expected.key = some expected.row)

/-- `state_path_is_bound` (`state_store/purge.rs`, lines 109-130) for a staging path, which is the
    trash path of no purge job. -/
def statePathIsBound (sessions : UploadSessions Path) (path : Path) : Bool :=
  sessions.any fun _ row =>
    decide (row.session.stagePath = path) && !row.session.state.isTerminal

/-- The fields of `MaintenanceScanState` (`maintenance.rs`, lines 53-66) that the stage matters
    for. `collecting` stands for the end of the cleanup and of the snapshot. -/
structure MaintenanceScanState where
  protectedUploadEntries : List RootedEntryKey
  skipUntrackedUploadCleanup : Bool
  collecting : Bool
deriving DecidableEq

def MaintenanceScanState.new : MaintenanceScanState := ⟨[], false, false⟩

/-- Where maintenance is with the stage; the comment is what comes next. -/
inductive MaintenancePhase where
  | idle
  /-- The first `expired_upload_session_matches` (line 565). -/
  | listed (expired : ExpiredUploadSession)
  /-- `entry_key` (line 584). -/
  | matched (expired : ExpiredUploadSession)
  /-- `try_claim_stale_entry` (line 596). -/
  | keyed (expired : ExpiredUploadSession) (entry : RootedEntryKey)
  /-- The second `expired_upload_session_matches` (line 604). -/
  | claimed (expired : ExpiredUploadSession) (entry : RootedEntryKey)
  /-- `capture_entry_for_purge` (line 626). -/
  | rechecked (expired : ExpiredUploadSession) (entry : RootedEntryKey)
  /-- `purge_single_file` (line 647). -/
  | captured (expired : ExpiredUploadSession) (entry : RootedEntryKey) (file : FileIdentity)
  /-- `remove_expired_upload_record` (lines 527-641 and 657). -/
  | removing (expired : ExpiredUploadSession) (claim : Option RootedEntryKey)
  /-- `entry_key_blocking` (line 911). -/
  | visited
  /-- `try_claim_stale_entry` (line 926). -/
  | scanKeyed (entry : RootedEntryKey)
  /-- `should_preserve_stale_state_path` (line 929). -/
  | scanClaimed (entry : RootedEntryKey)
  /-- `remove_entry_blocking` (line 937). -/
  | scanUnbound (entry : RootedEntryKey)
  /-- The drop of the claim (lines 113-124). -/
  | releasing (entry : RootedEntryKey)
deriving DecidableEq

/-- How the capture of a stage fails: with an error after which the row is removed, or with
    another one. -/
inductive CaptureFault where
  | gone
  | other
deriving DecidableEq

/-- What maintenance does. `expired`: a page of expired sessions has the row; `snapshot`: a page of
    the snapshot has it; `visit`: the scan finds the stage, and finds it too old. -/
inductive MaintenanceEvent where
  | newScan
  | expired (key : UploadSessionKey) (now : ℤ)
  | firstMatch (now : ℤ) (fails : Bool)
  | entryKey (fails : Bool)
  | claim
  | secondMatch (now : ℤ) (fails : Bool)
  | capture (fault : Option CaptureFault)
  | purge (fault : Option UnlinkFault)
  | removeRecord (now : ℤ) (fails : Bool)
  | snapshot (key : UploadSessionKey) (fails : Bool)
  | collect
  | visit
  | recheck (fails : Bool)
  | remove (fails : Bool)
  | drop
deriving DecidableEq

/-! ## The state -/

/-- How far the running request has come with `track_active_upload_files`. -/
inductive Registration where
  | none
  | keyed (key : RootedEntryKey)
  | active (key : RootedEntryKey)
deriving DecidableEq

/-- The state. `directory` is what the path of the staging directory names. `elsewhere` are the
    entries of other stages that uploads have registered, and `claimedElsewhere` the one that
    maintenance has claimed. -/
structure Handshake where
  upload : Upload.System
  directory : Option FileIdentity
  active : Finset RootedEntryKey
  registration : Registration
  elsewhere : List RootedEntryKey
  claimedElsewhere : Option RootedEntryKey
  scan : MaintenanceScanState
  phase : MaintenancePhase

namespace Handshake

variable (s : Handshake)

/-- `entry_key` of the stage (`rooted_fs.rs`, lines 1655-1662). -/
def entryKey (stage : Stage) : Option RootedEntryKey :=
  s.directory.map fun directory => ⟨directory, stage.name⟩

/-- `try_claim_stale_entry` (`maintenance.rs`, lines 126-140). -/
def tryClaim (entry : RootedEntryKey) : Option Handshake :=
  if entry ∈ s.active ∨ entry.maintenanceMarker ∈ s.active then none
  else some { s with active := insert entry.maintenanceMarker s.active }

def enter (phase : MaintenancePhase) : Handshake := { s with phase := phase }

/-- An error of the cleanup of one session (lines 494-502). -/
def failed (phase : MaintenancePhase) : Handshake :=
  { s with phase := phase, scan := { s.scan with skipUntrackedUploadCleanup := true } }

/-- The name of the stage is removed from its directory. -/
def unlinkStage : Handshake := { s with upload := { s.upload with stage := none } }

/-- The states of an expired session (lines 571-582). -/
def afterFirstMatch (expired : ExpiredUploadSession) : Handshake :=
  match expired.row.session.state with
  | .committed | .unknown => s.enter (.removing expired none)
  | .rejected =>
    if expired.row.session.stageIdentity = none then s.enter (.removing expired none)
    else s.enter (.matched expired)
  | .commitStarted => s.enter .idle
  | .running | .awaitingConfirmation => s.enter (.matched expired)

/-- The capture of the stage (lines 621-644), under the claim. -/
def capture (expired : ExpiredUploadSession) (entry : RootedEntryKey)
    (fault : Option CaptureFault) : Handshake :=
  match expired.row.session.stageIdentity, fault with
  | none, _ => s.enter (.removing expired (some entry))
  | some _, some .gone => s.enter (.removing expired (some entry))
  | some _, some .other => s.failed (.releasing entry)
  | some expected, none =>
    match s.upload.stage with
    | none => s.enter (.removing expired (some entry))
    | some file =>
      if file = expected then s.enter (.captured expired entry file)
      else s.enter (.removing expired (some entry))

/-- `purge_single_file` (lines 665-679): the captured file is unlinked if it is still there. -/
def purge (expired : ExpiredUploadSession) (entry : RootedEntryKey) (file : FileIdentity)
    (fault : Option UnlinkFault) : Handshake :=
  if s.upload.stage = some file then
    match fault with
    | none => s.unlinkStage.enter (.removing expired (some entry))
    | some .fails => s.failed (.releasing entry)
    | some .moved => s.unlinkStage.failed (.releasing entry)
  else s.failed (.releasing entry)

/-- What follows the removal of the row. -/
def afterRemoval : Option RootedEntryKey → MaintenancePhase
  | none => .idle
  | some entry => .releasing entry

/-- `remove_expired_upload_record` (lines 681-690). -/
def removeRecord (expired : ExpiredUploadSession) (claim : Option RootedEntryKey) (now : ℤ)
    (fails : Bool) : Handshake :=
  if fails then s.failed (afterRemoval claim)
  else
    let sessions :=
      (removeExpiredUploadSessionIfMatches now s.upload.sessions expired.key expired.row).2
    { s with upload := { s.upload with sessions := sessions }, phase := afterRemoval claim }

/-- One row of `tracked_upload_entries_page` (lines 350-395). -/
def snapshot (stage : Stage) (key : UploadSessionKey) : Handshake :=
  match s.upload.sessions.get key, s.upload.stage, s.entryKey stage with
  | some row, some file, some entry =>
    if row.session.stagePath ≠ stage.config.stagePath ∨ row.session.state.isTerminal then s
    else if row.session.stageIdentity = some file then
      { s with
        scan := { s.scan with protectedUploadEntries := entry :: s.scan.protectedUploadEntries } }
    else { s with scan := { s.scan with skipUntrackedUploadCleanup := true, collecting := true } }
  | _, _, _ => s

/-- A step of the cleanup of an expired session (lines 510-658). -/
def cleanupStep (stage : Stage) : MaintenancePhase → MaintenanceEvent → Option Handshake
  | .idle, .expired key now =>
    match s.upload.sessions.get key with
    | none => none
    | some row =>
      if s.scan.collecting = false ∧ row.session.stagePath = stage.config.stagePath ∧
          row.expiresAtMs ≤ now ∧ row.session.state ≠ .commitStarted then
        some (s.enter (.listed ⟨key, row⟩))
      else none
  | .listed expired, .firstMatch now fails =>
    if fails then some (s.failed .idle)
    else if expiredUploadSessionMatches now s.upload.sessions expired then
      some (s.afterFirstMatch expired)
    else some (s.enter .idle)
  | .matched expired, .entryKey fails =>
    if fails then some (s.failed .idle)
    else
      match s.entryKey stage with
      | none => some (s.enter (.removing expired none))
      | some entry => some (s.enter (.keyed expired entry))
  | .keyed expired entry, .claim =>
    match s.tryClaim entry with
    | none => some (s.enter .idle)
    | some s =>
      some { s with
        phase := .claimed expired entry
        scan := { s.scan with protectedUploadEntries := entry :: s.scan.protectedUploadEntries } }
  | .claimed expired entry, .secondMatch now fails =>
    if fails then some (s.failed (.releasing entry))
    else if expiredUploadSessionMatches now s.upload.sessions expired then
      some (s.enter (.rechecked expired entry))
    else some (s.enter (.releasing entry))
  | .rechecked expired entry, .capture fault => some (s.capture expired entry fault)
  | .captured expired entry file, .purge fault => some (s.purge expired entry file fault)
  | .removing expired claim, .removeRecord now fails =>
    some (s.removeRecord expired claim now fails)
  | _, _ => none

/-- A step of the scan for orphans (lines 249-258 and 795-948), and the drop of a claim. -/
def scanStep (stage : Stage) : MaintenancePhase → MaintenanceEvent → Option Handshake
  | .idle, .newScan => some { s with scan := .new }
  | .idle, .snapshot key fails =>
    if s.scan.collecting then none
    else if fails then
      some { s with scan := { s.scan with skipUntrackedUploadCleanup := true, collecting := true } }
    else some (s.snapshot stage key)
  | .idle, .collect => some { s with scan := { s.scan with collecting := true } }
  | .idle, .visit =>
    if s.scan.collecting ∧ s.scan.skipUntrackedUploadCleanup = false ∧ s.upload.stage.isSome then
      some (s.enter .visited)
    else none
  | .visited, .entryKey fails =>
    if fails then some (s.enter .idle)
    else
      match s.entryKey stage with
      | none => some (s.enter .idle)
      | some entry =>
        if entry ∈ s.scan.protectedUploadEntries then some (s.enter .idle)
        else some (s.enter (.scanKeyed entry))
  | .scanKeyed entry, .claim =>
    match s.tryClaim entry with
    | none => some (s.enter .idle)
    | some s => some (s.enter (.scanClaimed entry))
  | .scanClaimed entry, .recheck fails =>
    if fails ∨ statePathIsBound s.upload.sessions stage.config.stagePath then
      some (s.enter (.releasing entry))
    else some (s.enter (.scanUnbound entry))
  | .scanUnbound entry, .remove fails =>
    -- The path is resolved again, and what it names is removed.
    if fails then some (s.enter (.releasing entry))
    else some (s.unlinkStage.enter (.releasing entry))
  | .releasing entry, .drop =>
    some { s with active := s.active.erase entry.maintenanceMarker, phase := .idle }
  | _, _ => none

/-- A step of maintenance on the stage. -/
def maintenanceStep (stage : Stage) (e : MaintenanceEvent) : Option Handshake :=
  if s.upload.up then (s.cleanupStep stage s.phase e).or (s.scanStep stage s.phase e) else none

end Handshake

/-! ## Uploads -/

/-- The request is where `prepare_upload` registers the stage: a resumed one before it looks at
    the target (`upload/prepare.rs`, line 304), a fresh one after it has created the stage (line
    673). -/
def canTrack : Task → Bool
  | .inspecting r _ => r.mode.isResume
  | .transaction _ .initialCheckpoint => true
  | _ => false

/-- The step comes after the registration of the stage. -/
def needsLease : Task → Upload.Event → Bool
  | .inspecting r _, .prepare .inspect => r.mode.isResume
  | .transaction _ .initialCheckpoint, .prepare (.persist _ _) => true
  | .transaction _ .initialCheckpoint, .prepare .deadline => true
  | _, _ => false

/-- A step. -/
inductive Event where
  | upload (e : Upload.Event)
  | key
  | track
  | release
  | makeDirectory (directory : FileIdentity)
  | removeDirectory
  | trackElsewhere (key : RootedEntryKey)
  | releaseElsewhere (key : RootedEntryKey)
  | claimElsewhere (key : RootedEntryKey)
  | dropElsewhere
  | maintenance (e : MaintenanceEvent)
deriving DecidableEq

namespace Handshake

variable (s : Handshake)

/-- The stage is registered. -/
def isRegistered : Bool :=
  match s.registration with
  | .active _ => true
  | _ => false

/-- What a step of an upload waits for: the registration before, the staging directory for a new
    stage, and for a new request that the registration of the last one is gone, since the path
    lease is dropped after it. -/
def admits (e : Upload.Event) : Bool :=
  match e with
  | .request _ => decide (s.registration = .none)
  | .prepare (.create _) => s.directory.isSome
  | e => s.upload.task.all fun task => !needsLease task e || s.isRegistered

/-- A new process has an empty set and knows nothing of the last scan. -/
def forget (upload : Upload.System) : Handshake :=
  { s with
    upload := upload, active := ∅, registration := .none, elsewhere := [],
    claimedElsewhere := none, scan := .new, phase := .idle }

/-- A step of an upload. -/
def uploadStep (stage : Stage) (e : Upload.Event) : Option Handshake :=
  if s.admits e then
    (s.upload.step stage.config e).map fun upload =>
      match e with
      | .crash _ _ | .restart _ => s.forget upload
      | _ => { s with upload := upload }
  else none

/-- The two halves of `track_active_upload_files` (`upload/prepare.rs`, lines 26-55): the key, and
    its entry into the set. If maintenance is at work the key is taken again later. -/
def trackStep : Registration → Option Handshake
  | .keyed key =>
    if key.maintenanceMarker ∈ s.active then some { s with registration := .none }
    else some { s with active := insert key s.active, registration := .active key }
  | _ => none

/-- The end of a request drops its registration (`upload.rs`, lines 255-265). -/
def release : Registration → Handshake
  | .none => s
  | .keyed _ => { s with registration := .none }
  | .active key => { s with active := s.active.erase key, registration := .none }

/-- The entry is not the one of the stage. -/
def isElsewhere (stage : Stage) (key : RootedEntryKey) : Bool :=
  decide (0 ∉ key.name) && decide (s.entryKey stage ≠ some key)

def step (stage : Stage) : Event → Option Handshake
  | .upload e => s.uploadStep stage e
  | .key =>
    if s.upload.task.any canTrack ∧ s.registration = .none then
      (s.entryKey stage).map fun key => { s with registration := .keyed key }
    else none
  | .track => s.trackStep s.registration
  | .release => if s.upload.task = none then some (s.release s.registration) else none
  | .makeDirectory directory =>
    if s.directory = none then some { s with directory := some directory } else none
  | .removeDirectory =>
    if s.upload.stage = none then some { s with directory := none } else none
  | .trackElsewhere key =>
    if s.isElsewhere stage key ∧ key.maintenanceMarker ∉ s.active then
      some { s with active := insert key s.active, elsewhere := key :: s.elsewhere }
    else none
  | .releaseElsewhere key =>
    if key ∈ s.elsewhere then
      some { s with active := s.active.erase key, elsewhere := s.elsewhere.erase key }
    else none
  | .claimElsewhere key =>
    if s.isElsewhere stage key ∧ s.claimedElsewhere = none then
      (s.tryClaim key).map fun s => { s with claimedElsewhere := some key }
    else none
  | .dropElsewhere =>
    s.claimedElsewhere.map fun key =>
      { s with active := s.active.erase key.maintenanceMarker, claimedElsewhere := none }
  | .maintenance e => s.maintenanceStep stage e

end Handshake

/-- The uploads of a stage and maintenance. -/
def machine (stage : Stage) (target : Option TargetEntry) : Machine Handshake Event where
  init :=
    { upload := .initial target, directory := none, active := ∅, registration := .none,
      elsewhere := [], claimedElsewhere := none, scan := .new, phase := .idle }
  step := fun s e => s.step stage e

end DufsRam.Maintenance
