import Mathlib
import DufsRam.Lib.DurableFile
import DufsRam.RootedFs.Publish
import DufsRam.StateStore.Upload

/-!
# Upload requests: state and records

The state that the upload requests of one upload id for one target path work on: the
upload sessions, the staging path, the files behind it, the target path, and the request
that holds the path lease. The requests of all owners share the staging path, so the
sessions of every owner are part of the state.

The staging file is written through Tokio, whose `write_all` answers before the data is in
the file. What is still under way is `queued`; dropping the file leaves it running as an
orphan. `metadata()` does not wait for it, `flush`, `set_len` and the next write do.

This module has the types and the functions of `upload/record.rs`; the requests follow in
`Upload.Prepare` and `Upload.Transfer`.
-/

namespace DufsRam.Upload

open StateStore RootedFs

/-! ## Requests -/

/-- `UploadMode` (`upload/protocol.rs`, lines 102-106). -/
inductive UploadMode where
  | fresh
  | resume (offset : ℕ)
deriving DecidableEq

/-- `offset` (lines 109-114). -/
def UploadMode.offset : UploadMode → Option ℕ
  | .fresh => none
  | .resume offset => some offset

/-- `is_resume` (lines 116-118). -/
def UploadMode.isResume : UploadMode → Bool
  | .fresh => false
  | .resume _ => true

/-- `UploadOverwritePolicy` (lines 70-74). -/
inductive UploadOverwritePolicy where
  | noReplace
  | ifUnchanged (revision : Digest)
deriving DecidableEq

/-- `revision` (lines 94-99). -/
def UploadOverwritePolicy.revision : UploadOverwritePolicy → Option Digest
  | .noReplace => none
  | .ifUnchanged revision => some revision

/-- The fields of `UploadOptions` (lines 23-32) that the requests of one upload id differ
    in, and the `Content-Length` of the request. -/
structure UploadRequest where
  owner : Digest
  mode : UploadMode
  uploadLength : ℕ
  overwrite : UploadOverwritePolicy
  requestBodyLength : Option ℕ
deriving DecidableEq

/-- `initial_offset`: where the body of the request goes. -/
def UploadRequest.initialOffset (r : UploadRequest) : ℕ := r.mode.offset.getD 0

/-- `RESUMABLE_UPLOAD_MIN_SIZE` (line 14). -/
def resumableUploadMinSize : ℕ := 20 * 1024 * 1024

/-- `UploadTransferError` (`upload/transfer.rs`, lines 6-13). -/
inductive UploadTransferError where
  | io
  | idleTimeout
  | totalTimeout
  | excessBody
  | insufficientStorage
deriving DecidableEq

/-! ## The target -/

/-- `PreservedFileMetadata` (`rooted_fs.rs`, lines 105-111). -/
structure PreservedFileMetadata where
  uid : ℕ
  gid : ℕ
  mode : ℕ
  xattrs : List (String × List UInt8)
deriving DecidableEq

/-- What stands at the target path. -/
structure TargetEntry where
  stat : ExistingReplacementTarget
  xattrs : List (String × List UInt8)
deriving DecidableEq

/-- `replacement_identity` (`rooted_fs.rs`, lines 1186-1224). -/
def replacementIdentity : Option TargetEntry → ReplacementTargetIdentity
  | none => .missing
  | some target => .existing target.stat

/-- `is_replaceable` (`rooted_fs.rs`, lines 155-164); `0o6000` is 3072. -/
def isReplaceable : ReplacementTargetIdentity → Bool
  | .missing => true
  | .existing target =>
    match target.attributes.fileType with
    | .symlink => true
    | .regularFile => decide (target.links = 1) && decide (target.attributes.mode &&& 3072 = 0)
    | .directory | .other => false

/-- `replacement_metadata` (`rooted_fs.rs`, lines 1081-1181) when no system call fails; `none`
    for the answers `Unsupported`. -/
def replacementMetadata (isPrivilegedXattr : String → Bool) :
    Option TargetEntry → Option (ReplacementTargetIdentity × Option PreservedFileMetadata)
  | none => some (.missing, none)
  | some target =>
    match target.stat.attributes.fileType with
    | .symlink => some (.existing target.stat, none)
    | .regularFile =>
      if target.stat.attributes.mode &&& 3072 ≠ 0 ∨ target.stat.links ≠ 1 ∨
          target.xattrs.any (fun xattr => isPrivilegedXattr xattr.1) then none
      else some (.existing target.stat,
        some ⟨target.stat.attributes.uid, target.stat.attributes.gid,
          target.stat.attributes.mode, target.xattrs⟩)
    | .directory | .other => none

/-! ## State -/

/-- What the requests of one upload id and target share: the id, the two paths, the limits
    of the store and of the server, and the digest of `target_revision`
    (`upload/target.rs`, lines 10-26). -/
structure Config where
  uploadId : Uuid
  targetPath : Path
  stagePath : Path
  limits : UploadLimits
  maxUploadSize : ℕ
  revisionDigest : Digest → ExistingReplacementTarget → Digest
  isPrivilegedXattr : String → Bool

/-- `target_revision` (`upload/target.rs`, lines 10-26). -/
def Config.targetRevision (c : Config) (owner : Digest) :
    ReplacementTargetIdentity → Option Digest
  | .missing => none
  | .existing target => some (c.revisionDigest owner target)

/-- `upload_session_key` (`upload/record.rs`, lines 825-830). -/
def Config.key (c : Config) (owner : Digest) : UploadSessionKey := ⟨owner, c.uploadId⟩

/-- A file that is or was a stage. `applied` is history: the metadata of replaced targets
    that a replay has put on it, fully or partly. -/
structure StageFile where
  data : DurableFile UInt8
  applied : List PreservedFileMetadata
deriving DecidableEq

def StageFile.new : StageFile := ⟨.new, []⟩

/-- A write that outlives the request that queued it. -/
structure Orphan where
  file : FileIdentity
  position : ℕ
  data : List UInt8
deriving DecidableEq

/-- `UploadRecordState` (`upload/record.rs`, lines 27-34). -/
inductive UploadRecordState where
  | running
  | awaitingConfirmation
  | committed
  | rejected
  | unknown
deriving DecidableEq

/-- `UploadCheckpoint` (lines 817-823). -/
structure UploadCheckpoint where
  uploadLength : ℕ
  durableOffset : ℕ
  state : UploadRecordState
  targetRevision : Option Digest
deriving DecidableEq

/-- `UploadRecordLookup` (lines 36-40). -/
inductive UploadRecordLookup where
  | notSeen
  | foreignOwner
  | found (checkpoint : UploadCheckpoint)
deriving DecidableEq

/-- What `prepare_upload` knows before it has a file: the request, the session it resumes,
    and what it expects to replace. -/
structure Preparation where
  request : UploadRequest
  checkpoint : Option UploadCheckpoint
  targetIdentity : ReplacementTargetIdentity
  targetMetadata : Option PreservedFileMetadata
deriving DecidableEq

/-- `UploadTransaction` (`upload.rs`, lines 105-123): a request with the open stage, the
    position of the descriptor and the data that is queued for it. -/
structure UploadTransaction extends Preparation where
  file : FileIdentity
  cursor : ℕ
  queued : List UInt8
deriving DecidableEq

/-- `awaiting_confirmation`. -/
def UploadTransaction.awaiting (tx : UploadTransaction) : Bool :=
  decide (tx.checkpoint.map UploadCheckpoint.state = some .awaitingConfirmation)

/-- `resume`. -/
def UploadTransaction.resume (tx : UploadTransaction) : Bool := tx.request.mode.isResume

/-- `initial_offset`. -/
def UploadTransaction.initialOffset (tx : UploadTransaction) : ℕ := tx.request.initialOffset

/-- `requested_revision`, which the transaction carries as `target_revision`. -/
def UploadTransaction.targetRevision (tx : UploadTransaction) : Option Digest :=
  tx.request.overwrite.revision

/-- The record that follows a commit (`upload/commit.rs`, lines 608-784). -/
inductive CommitRecord where
  | committed
  | awaitingConfirmation
  | unknown
deriving DecidableEq

/-- Where a transaction is; the name is that of what comes next. -/
inductive Phase where
  | initialCheckpoint
  | truncating
  | rebinding
  | reserving
  | transferring (remaining : ℕ)
  | transferFailed (error : UploadTransferError)
  | timedOut
  | transferred
  | replaying
  | starting
  | committing
  | recording (record : CommitRecord)
  | discarding (thenReset : Bool)
  | resetting (thenReject : Bool)
  | removing (session : StoredUploadSession Path) (thenReject : Bool)
  | rejecting
deriving DecidableEq

/-- The request that holds the path lease. -/
inductive Task where
  | looking (request : UploadRequest)
  | inspecting (request : UploadRequest) (record : Option UploadCheckpoint)
  | preserving (request : UploadRequest) (record : Option UploadCheckpoint)
  | creating (preparation : Preparation)
  | reopening (preparation : Preparation)
  | transaction (tx : UploadTransaction) (phase : Phase)
deriving DecidableEq

/-- A file that a commit has moved to the target path, as it was then. -/
structure Publication where
  key : UploadSessionKey
  createOnly : Bool
  uploadLength : ℕ
  content : List UInt8
  received : List UInt8
  applied : List PreservedFileMetadata
deriving DecidableEq

/-- The state. `stage` and `target` are what the two paths name; `entrySynced` says that the
    staging directory has been synced since the stage was created. The last three fields are
    history: the bytes received for each session, the sessions whose stage a rollback has
    unlinked since they were last stored, and the publications. -/
structure System where
  up : Bool
  sessions : UploadSessions Path
  stage : Option FileIdentity
  entrySynced : Bool
  files : FileIdentity → StageFile
  target : Option TargetEntry
  task : Option Task
  orphans : List Orphan
  received : UploadSessionKey → List UInt8
  rolledBack : List UploadSessionKey
  published : List Publication

namespace System

variable (s : System)

/-- The descriptor that the running request holds. -/
def openFile : Option FileIdentity :=
  match s.task with
  | some (.transaction tx _) => some tx.file
  | _ => none

/-- Is there a file with this identity? -/
def live (i : FileIdentity) : Bool :=
  decide (s.stage = some i) || decide (s.openFile = some i) ||
    decide (s.target.map (fun target => target.stat.identity) = some i) ||
    s.orphans.any fun orphan => decide (orphan.file = i)

/-- The file with an identity, if there is one. -/
def inode (i : FileIdentity) : Option StageFile := if s.live i then some (s.files i) else none

def updateData (i : FileIdentity) (f : DurableFile UInt8 → DurableFile UInt8) : System :=
  { s with files := Function.update s.files i { s.files i with data := f (s.files i).data } }

/-- Continue the transaction with a phase. -/
def enter (tx : UploadTransaction) (phase : Phase) : System :=
  { s with task := some (.transaction tx phase) }

/-- `drop(file)`: what is queued goes on without the request. -/
def dropFile (tx : UploadTransaction) : System :=
  { s with
    orphans := if tx.queued = [] then s.orphans else ⟨tx.file, tx.cursor, tx.queued⟩ :: s.orphans }

/-- The request returns. -/
def finish (tx : UploadTransaction) : System := { s.dropFile tx with task := none }

/-- `drop(file)`, and `reset_and_ancestors` next. -/
def rollBack (tx : UploadTransaction) (thenReject : Bool) : System :=
  (s.dropFile tx).enter { tx with queued := [] } (.resetting thenReject)

end System

/-! ## The queue of the staging file -/

namespace System

variable (s : System)

/-- The first `k` queued bytes reach the file. -/
def land (tx : UploadTransaction) (k : ℕ) : System × UploadTransaction :=
  (s.updateData tx.file fun f => f.writeAt 0 tx.cursor (tx.queued.take k),
    { tx with cursor := tx.cursor + (tx.queued.take k).length, queued := tx.queued.drop k })

/-- `flush`: everything queued reaches the file, or `landed` bytes and an error. -/
def flush (tx : UploadTransaction) (fault : Option ℕ) : Bool × System × UploadTransaction :=
  match fault with
  | none => (true, s.land tx tx.queued.length)
  | some landed => (false, (s.land tx landed).1, { (s.land tx landed).2 with queued := [] })

/-- How the cut of a file fails: `set_len` after `landed` queued bytes, or the sync after
    it. -/
inductive TruncateFault where
  | setLen (landed : ℕ)
  | sync
deriving DecidableEq

/-- `set_len(initial_offset)` and `sync_file_to_storage`; `set_len` waits for the queue. -/
def cutBack (tx : UploadTransaction) (fault : Option TruncateFault) :
    Bool × System × UploadTransaction :=
  match fault with
  | some (.setLen landed) =>
    (false, (s.land tx landed).1, { (s.land tx landed).2 with queued := [] })
  | some .sync =>
    let (s, tx) := s.land tx tx.queued.length
    (false, s.updateData tx.file fun f => f.setLen 0 tx.initialOffset, tx)
  | none =>
    let (s, tx) := s.land tx tx.queued.length
    (true, s.updateData tx.file fun f => (f.setLen 0 tx.initialOffset).sync, tx)

end System

/-! ## Records -/

/-- How a command of the state store fails: before it is executed, or only its answer is
    lost. -/
inductive StoreFault where
  | refused
  | lost
deriving DecidableEq

/-- How a checkpoint fails: at the flush after `landed` queued bytes, at the sync, at the
    inspection of the stage, at the sync of its directory, or in the store. -/
inductive PersistFault where
  | flush (landed : ℕ)
  | sync
  | inspect
  | syncParent
  | store (fault : StoreFault)
deriving DecidableEq

/-- The stored session is one of this target and stage. -/
def Config.binds (c : Config) (session : StoredUploadSession Path) : Bool :=
  decide (session.targetPath = c.targetPath) && decide (session.stagePath = c.stagePath)

/-- The public state of a stored session (lines 702-710). -/
def recordState : StoredUploadState → UploadRecordState
  | .committed => .committed
  | .rejected => .rejected
  | .running => .running
  | .awaitingConfirmation => .awaitingConfirmation
  | .commitStarted | .unknown => .unknown

namespace System

variable (s : System)

/-- `valid_resumable_stage` (lines 746-775); `denied` if the stage does not open. -/
def validResumableStage (denied : Bool) (durableOffset : ℕ) (identity : Option FileIdentity) :
    Bool :=
  match identity with
  | none => false
  | some i => !denied && decide (s.stage = some i) &&
      decide (durableOffset ≤ (s.files i).data.content.length)

/-- `lookup` and `classify_stored_session` (lines 211-227 and 660-712). -/
def lookup (c : Config) (key : UploadSessionKey) (denied : Bool) : UploadRecordLookup :=
  match s.sessions.get key with
  | none => .notSeen
  | some ⟨session, _⟩ =>
    if !c.binds session then .foreignOwner
    else if (session.state = .running ∨ session.state = .awaitingConfirmation) ∧
        session.durableOffset < session.uploadLength ∧
        s.validResumableStage denied session.durableOffset session.stageIdentity = false then
      .notSeen
    else .found ⟨session.uploadLength, session.durableOffset, recordState session.state,
      session.targetRevision⟩

/-- `open_resumable_stage` (lines 235-301). -/
def openResumableStage (c : Config) (r : UploadRequest) (durableOffset : ℕ)
    (expectedState : UploadRecordState) (denied : Bool) : Option FileIdentity :=
  match s.sessions.get (c.key r.owner) with
  | none => none
  | some ⟨session, _⟩ =>
    if !c.binds session ∨ session.uploadLength ≠ r.uploadLength ∨
        session.durableOffset ≠ durableOffset then none
    else
      match expectedState, session.state, session.stageIdentity with
      | .running, .running, some i =>
        if !denied ∧ s.stage = some i ∧ durableOffset ≤ (s.files i).data.content.length
        then some i else none
      | .awaitingConfirmation, .awaitingConfirmation, some i =>
        if !denied ∧ s.stage = some i ∧ (s.files i).data.content.length = durableOffset
        then some i else none
      | _, _, _ => none

/-- The session that `persist_state` proposes (lines 593-617). `revision` is `none` where the
    context does not bind one. -/
def proposedSession (c : Config) (key : UploadSessionKey) (uploadLength : ℕ)
    (revision : Option (Option Digest)) (durableOffset : ℕ) (state : StoredUploadState)
    (identity : Option FileIdentity) : StoredUploadSession Path :=
  let existing :=
    if identity.isNone ∨ revision.isNone then (s.sessions.get key).map UploadRow.session else none
  { targetPath := c.targetPath
    stagePath := c.stagePath
    uploadLength := uploadLength
    durableOffset := durableOffset
    state := state
    stageIdentity := identity.or (existing.bind StoredUploadSession.stageIdentity)
    targetRevision :=
      match revision with
      | some targetRevision => targetRevision
      | none => existing.bind StoredUploadSession.targetRevision }

/-- The sessions after a save, with the history of rollbacks. -/
def saved (key : UploadSessionKey) (state : StoredUploadState) (result : StoreUploadSession)
    (sessions : UploadSessions Path) : System :=
  { s with
    sessions := sessions
    rolledBack :=
      if result.stored && !state.isTerminal then s.rolledBack.filter fun k => decide (k ≠ key)
      else s.rolledBack }

/-- `persist_state` (lines 586-635). -/
def persistState (c : Config) (now : ℤ) (key : UploadSessionKey) (uploadLength : ℕ)
    (revision : Option (Option Digest)) (durableOffset : ℕ) (state : StoredUploadState)
    (identity : Option FileIdentity) (fault : Option StoreFault) : Bool × System :=
  match saveUploadSession c.limits now s.sessions key
    (s.proposedSession c key uploadLength revision durableOffset state identity) with
  | .error _ => (false, s)
  | .ok (result, sessions) =>
    match fault with
    | some .refused => (false, s)
    | some .lost => (false, s.saved key state result sessions)
    | none => (result.stored, s.saved key state result sessions)

/-- `sync_and_identify_stage` (lines 714-744). -/
def syncAndIdentifyStage (tx : UploadTransaction) (durableOffset : ℕ)
    (fault : Option PersistFault) : Bool × System × UploadTransaction :=
  match fault with
  | some (.flush landed) => s.flush tx (some landed)
  | some .sync => (false, s.land tx tx.queued.length)
  | _ =>
    let (s, tx) := s.land tx tx.queued.length
    let s := s.updateData tx.file DurableFile.sync
    (decide (fault ≠ some .inspect) &&
      decide (durableOffset ≤ (s.files tx.file).data.content.length) &&
      decide (s.stage = some tx.file), s, tx)

/-- The fault of the store in a checkpoint. -/
def storeFault : Option PersistFault → Option StoreFault
  | some (.store fault) => some fault
  | _ => none

/-- The records that name the stage: sync it, and store the session. The first one syncs the
    staging directory in between. -/
def persistStage (c : Config) (now : ℤ) (tx : UploadTransaction)
    (revision : Option (Option Digest)) (durableOffset : ℕ) (state : StoredUploadState)
    (syncParent : Bool) (fault : Option PersistFault) : Bool × System × UploadTransaction :=
  match s.syncAndIdentifyStage tx durableOffset fault with
  | (false, s, tx) => (false, s, tx)
  | (true, s, tx) =>
    if syncParent ∧ fault = some .syncParent then (false, s, tx)
    else
      let s := if syncParent then { s with entrySynced := true } else s
      let (ok, s) := s.persistState c now (c.key tx.request.owner) tx.request.uploadLength
        revision durableOffset state (some tx.file) (storeFault fault)
      (ok, s, tx)

/-- `persist_checkpoint` and `persist_initial_checkpoint` (lines 305-352). -/
def persistCheckpoint (c : Config) (now : ℤ) (tx : UploadTransaction)
    (revision : Option (Option Digest)) (durableOffset : ℕ) (initial : Bool)
    (fault : Option PersistFault) : Bool × System × UploadTransaction :=
  if durableOffset ≤ tx.request.uploadLength then
    s.persistStage c now tx revision durableOffset .running initial fault
  else (false, s, tx)

/-- `persist_commit_started` (lines 355-370). -/
def persistCommitStarted (c : Config) (now : ℤ) (tx : UploadTransaction)
    (fault : Option PersistFault) : Bool × System × UploadTransaction :=
  s.persistStage c now tx (some tx.targetRevision) tx.request.uploadLength .commitStarted false
    fault

/-- `persist_awaiting_confirmation` (lines 375-390). -/
def persistAwaitingConfirmation (c : Config) (now : ℤ) (tx : UploadTransaction)
    (fault : Option PersistFault) : Bool × System × UploadTransaction :=
  s.persistStage c now tx (some tx.targetRevision) tx.request.uploadLength
    .awaitingConfirmation false fault

/-- `persist_terminal` and `persist_unknown` (lines 392-428). -/
def persistTerminal (c : Config) (now : ℤ) (tx : UploadTransaction) (durableOffset : ℕ)
    (state : StoredUploadState) (fault : Option StoreFault) : System :=
  (s.persistState c now (c.key tx.request.owner) tx.request.uploadLength none durableOffset
    state none fault).2

end System

end DufsRam.Upload
