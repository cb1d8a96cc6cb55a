import DufsRam.Lib.Machine
import DufsRam.Upload.Prepare

/-!
# Receiving, committing and rolling back an upload

Model of `transfer_upload_body` (`upload/transfer.rs`, lines 108-411) with
`receive_upload_body` and `write_upload_chunk` (lines 422-558), of the failure handlers
(`upload/failure.rs`), of `prepare_transferred_upload` and `commit_ready_upload`
(`upload/commit.rs`), of the rollback (`upload/record.rs`, lines 501-584), and of a crash
with the restart after it.

The commit is the one of `RootedFs.Publish`, seen through its effect: whether the stage was
renamed, and what was answered.
-/

namespace DufsRam.Upload

open StateStore RootedFs

/-! ## Receiving the body -/

/-- How the write of a chunk fails: the reservation is too small, the space check cannot be
    made or fails, `landed` bytes of what was queued and of the chunk reach the file, the
    next idle deadline overflows, or the deadline has passed after the write. -/
inductive ChunkFault where
  | reservation
  | spaceCheck
  | storage
  | write (landed : ℕ)
  | idleDeadline
  | totalDeadline
deriving DecidableEq

/-- What happens while the body is received. `drain` is the progress of the queue. -/
inductive TransferEvent where
  | drain (bytes : ℕ)
  | chunk (data : List UInt8) (fault : Option ChunkFault)
  | stop (error : UploadTransferError)
  | finished
deriving DecidableEq

/-- `write_upload_chunk` (lines 523-558), the deadlines after it (lines 507-515) and the test
    for excess (lines 517-519), for a chunk whose accepted part is not empty. -/
def System.writeUploadChunk (s : System) (tx : UploadTransaction) (remaining : ℕ)
    (accepted : List UInt8) (excess : Bool) (fault : Option ChunkFault) : System :=
  match fault with
  | some .reservation => s.enter tx (.transferFailed .excessBody)
  | some .spaceCheck => s.enter tx (.transferFailed .io)
  | some .storage => s.enter tx (.transferFailed .insufficientStorage)
  | some (.write landed) =>
    let (s, tx) := s.land { tx with queued := tx.queued ++ accepted } landed
    s.enter { tx with queued := [] } (.transferFailed .io)
  | some .idleDeadline =>
    let (s, tx) := s.land tx tx.queued.length
    s.enter { tx with queued := accepted } (.transferFailed .io)
  | some .totalDeadline =>
    let (s, tx) := s.land tx tx.queued.length
    s.enter { tx with queued := accepted } (.transferFailed .totalTimeout)
  | none =>
    let (s, tx) := s.land tx tx.queued.length
    s.enter { tx with queued := accepted }
      (if excess then .transferFailed .excessBody
        else .transferring (remaining - accepted.length))

/-- One turn of the loop of `receive_upload_body` (lines 448-520) that received `data`. -/
def System.receiveChunk (s : System) (c : Config) (tx : UploadTransaction) (remaining : ℕ)
    (data : List UInt8) (fault : Option ChunkFault) : System :=
  let key := c.key tx.request.owner
  let s := s.setReceived key (s.received key ++ data)
  let accepted := data.take remaining
  if data = [] then s.enter tx (.transferring remaining)
  else if accepted = [] then s.enter tx (.transferFailed .excessBody)
  else s.writeUploadChunk tx remaining accepted (decide (accepted.length < data.length)) fault

/-- The steps while the body is received. -/
def System.transferStep (s : System) (c : Config) (tx : UploadTransaction) :
    Phase → TransferEvent → Option System
  | .transferring remaining, .drain bytes =>
    let (s, tx) := s.land tx bytes
    some (s.enter tx (.transferring remaining))
  | .transferFailed error, .drain bytes =>
    let (s, tx) := s.land tx bytes
    some (s.enter tx (.transferFailed error))
  | .transferring remaining, .chunk data fault => some (s.receiveChunk c tx remaining data fault)
  | .transferring _, .stop error =>
    match error with
    | .io | .idleTimeout | .totalTimeout => some (s.enter tx (.transferFailed error))
    | .excessBody | .insufficientStorage => none
  | .transferring _, .finished => some (s.enter tx .transferred)
  | _, _ => none

/-! ## Failures -/

/-- `partial_upload_is_checkpointable` (lines 40-49). -/
def partialUploadIsCheckpointable (partialSize initialOffset uploadLength : ℕ) (resume : Bool) :
    Bool :=
  decide (initialOffset ≤ partialSize) && decide (partialSize ≤ uploadLength) &&
    (resume || decide (resumableUploadMinSize ≤ partialSize))

/-- What goes wrong while a failure is handled. -/
structure SettleFaults where
  now : ℤ
  metadata : Bool
  truncate : Option System.TruncateFault
  persist : Option PersistFault
deriving DecidableEq

/-- An idle timeout or an I/O error (lines 270-383): a checkpoint of what has reached the
    file, or the rollback of a fresh upload that is too short for one. -/
def System.checkpointPartial (s : System) (c : Config) (tx : UploadTransaction)
    (partialSize : ℕ) (f : SettleFaults) : System :=
  if partialUploadIsCheckpointable partialSize tx.initialOffset tx.request.uploadLength
      tx.resume then
    let (_, s, tx) := s.persistCheckpoint c f.now tx (some tx.targetRevision) partialSize false
      f.persist
    s.finish tx
  else if tx.resume then s.finish tx
  else s.rollBack tx false

/-- The failure branch of `transfer_upload_body` (lines 157-386). The size is read without
    waiting for the queue. -/
def System.settleFailure (s : System) (c : Config) (tx : UploadTransaction)
    (error : UploadTransferError) (f : SettleFaults) : System :=
  if tx.awaiting then s.finish tx
  else if error = .totalTimeout then s.enter tx .timedOut
  else if f.metadata ∧ tx.resume then s.finish tx
  else
    let partialSize := if f.metadata then 0 else (s.files tx.file).data.content.length
    match error with
    | .excessBody =>
      if tx.resume then
        let (_, s, tx) := s.cutBack tx f.truncate
        s.finish tx
      else s.rollBack tx false
    | .insufficientStorage =>
      match s.cutBack tx f.truncate with
      | (false, s, tx) => s.finish tx
      | (true, s, tx) => if tx.resume then s.finish tx else s.rollBack tx false
    | .io | .idleTimeout | .totalTimeout => s.checkpointPartial c tx partialSize f

/-- `finish_timed_out_upload` (`upload/failure.rs`, lines 200-368). `flush` is the fault of the
    flush it begins with. -/
def System.finishTimedOutUpload (s : System) (c : Config) (tx : UploadTransaction)
    (flush : Option ℕ) (f : SettleFaults) : System :=
  match s.flush tx flush with
  | (false, s, tx) => if tx.resume then s.finish tx else s.enter tx (.discarding true)
  | (true, s, tx) =>
    if f.metadata then
      if tx.resume then s.finish tx else s.rollBack tx false
    else
      let partialSize := (s.files tx.file).data.content.length
      if partialUploadIsCheckpointable partialSize tx.initialOffset tx.request.uploadLength
          tx.resume then
        match s.persistCheckpoint c f.now tx none partialSize (!tx.resume) f.persist with
        | (true, s, tx) => s.finish tx
        | (false, s, tx) => if tx.resume then s.finish tx else s.enter tx (.discarding true)
      else if !tx.resume then s.enter tx (.discarding true)
      else if tx.initialOffset < partialSize then
        let (_, s, tx) := s.cutBack tx f.truncate
        s.finish tx
      else s.finish tx

/-! ## Committing -/

/-- How the checks before the commit fail (`upload/commit.rs`, lines 39-304). -/
inductive PrecommitFault where
  | flush (landed : ℕ)
  | space (truncate : Option System.TruncateFault)
  | deadline
  | metadata
deriving DecidableEq

/-- The length check of a transferred upload (lines 196-272). -/
def System.checkLength (s : System) (c : Config) (tx : UploadTransaction) (now : ℤ)
    (persist : Option PersistFault) : System :=
  let actualLength := (s.files tx.file).data.content.length
  if actualLength = tx.request.uploadLength then s.enter tx .replaying
  else if tx.awaiting then s.finish tx
  else if actualLength < tx.request.uploadLength then
    let (_, s, tx) := s.persistCheckpoint c now tx (some tx.targetRevision) actualLength false
      persist
    s.finish tx
  else s.rollBack tx false

/-- `prepare_transferred_upload` up to the replay (lines 39-304). -/
def System.precommit (s : System) (c : Config) (tx : UploadTransaction)
    (fault : Option PrecommitFault) (now : ℤ) (persist : Option PersistFault) : System :=
  match fault with
  | some (.flush landed) =>
    let (_, s, tx) := s.flush tx (some landed)
    -- `finish_precommit_io_failure` (`upload/failure.rs`, lines 123-187).
    if tx.awaiting || tx.resume then s.finish tx else s.rollBack tx false
  | some (.space truncate) =>
    let (s, tx) := s.land tx tx.queued.length
    s.finishSpaceFailure tx truncate
  | some .deadline =>
    let (s, tx) := s.land tx tx.queued.length
    if tx.awaiting then s.finish tx else s.enter tx .timedOut
  | some .metadata =>
    let (s, tx) := s.land tx tx.queued.length
    s.finish tx
  | none =>
    let (s, tx) := s.land tx tx.queued.length
    s.checkLength c tx now persist

/-- How `apply_replacement_metadata` ends: completely, or with an error before or after it
    has changed the file. -/
inductive ReplayResult where
  | applied
  | failed (changed : Bool)
deriving DecidableEq

/-- A replay has put metadata on the open stage. -/
def System.recordReplay (s : System) (tx : UploadTransaction) (metadata : PreservedFileMetadata) :
    System :=
  { s with
    files := Function.update s.files tx.file
      { s.files tx.file with applied := metadata :: (s.files tx.file).applied } }

/-- The replay of the target's metadata (lines 312-392). -/
def System.replay (s : System) (tx : UploadTransaction) (result : ReplayResult) : System :=
  match tx.targetMetadata, result with
  | none, _ => s.enter tx .starting
  | some metadata, .applied => (s.recordReplay tx metadata).enter tx .starting
  | some metadata, .failed changed =>
    let s := if changed then s.recordReplay tx metadata else s
    if tx.awaiting then s.finish tx else s.rollBack tx false

/-- The space check after the replay and the record of the commit (lines 393-506). -/
def System.startCommit (s : System) (c : Config) (tx : UploadTransaction) (space : Bool)
    (now : ℤ) (fault : Option PersistFault) : System :=
  if !space then
    if tx.awaiting then s.finish tx else s.rollBack tx false
  else
    match s.persistCommitStarted c now tx fault with
    | (true, s, tx) => s.enter tx .committing
    | (false, s, tx) => s.rollBack tx false

/-- The stage becomes the target; `attributes` and `xattrs` are those of the file. -/
def System.publish (s : System) (c : Config) (tx : UploadTransaction) (attributes : Attributes)
    (xattrs : List (String × List UInt8)) : System :=
  let key := c.key tx.request.owner
  { s with
    stage := none
    target := some ⟨⟨tx.file, 1, attributes⟩, xattrs⟩
    published :=
      { key := key
        createOnly := decide (tx.targetIdentity = .missing)
        uploadLength := tx.request.uploadLength
        content := (s.files tx.file).data.content
        received := s.received key
        applied := (s.files tx.file).applied } :: s.published }

/-- What a commit did: whether the stage was renamed, and the answer. -/
structure CommitResult where
  renamed : Option (Attributes × List (String × List UInt8))
  outcome : ReplaceOutcome
deriving DecidableEq

/-- What a commit can do: it renames the stage that was opened, onto a missing target if it
    expects none, and says "published" only after a rename. -/
def CommitResult.admitted (result : CommitResult) (s : System) (tx : UploadTransaction) : Bool :=
  (result.renamed.isNone ||
      decide (s.stage = some tx.file) &&
        (decide (tx.targetIdentity ≠ .missing) || s.target.isNone)) &&
    (decide (result.outcome ≠ .published) || result.renamed.isSome)

/-- The answers of a commit (lines 599-784). -/
def System.afterCommit (s : System) (tx : UploadTransaction) : ReplaceOutcome → System
  | .published => s.enter tx (.recording .committed)
  | .rejected => s.enter tx (.recording .awaitingConfirmation)
  | .notPublished _ => s.rollBack tx true
  | .publishedDurabilityUnknown => s.enter tx (.recording .unknown)

/-- The last space check and `commit_staged_file` (lines 507-606). -/
def System.commit (s : System) (c : Config) (tx : UploadTransaction) (space : Bool)
    (result : CommitResult) : Option System :=
  if !space then some (s.rollBack tx false)
  else if result.admitted s tx then
    match result.renamed with
    | none => some (s.afterCommit tx result.outcome)
    | some (attributes, xattrs) =>
      some ((s.publish c tx attributes xattrs).afterCommit tx result.outcome)
  else none

/-- The records after a commit (lines 622-676, 730-756 and 786-815). -/
def System.recordCommit (s : System) (c : Config) (tx : UploadTransaction) (record : CommitRecord)
    (now : ℤ) (fault : Option PersistFault) : System :=
  match record with
  | .committed =>
    (s.persistTerminal c now tx tx.request.uploadLength .committed (System.storeFault fault)).finish
      tx
  | .unknown =>
    (s.persistTerminal c now tx tx.request.uploadLength .unknown (System.storeFault fault)).finish tx
  | .awaitingConfirmation =>
    let (_, s, tx) := s.persistAwaitingConfirmation c now tx fault
    s.finish tx

/-- What happens to a transferred upload. -/
inductive CommitEvent where
  | settle (faults : SettleFaults)
  | timeOut (flush : Option ℕ) (faults : SettleFaults)
  | precommit (fault : Option PrecommitFault) (now : ℤ) (persist : Option PersistFault)
  | replay (result : ReplayResult)
  | start (space : Bool) (now : ℤ) (fault : Option PersistFault)
  | commit (space : Bool) (result : CommitResult)
  | record (now : ℤ) (fault : Option PersistFault)
deriving DecidableEq

/-- The steps after the body, and those of a failed or late transfer. -/
def System.commitStep (s : System) (c : Config) (tx : UploadTransaction) :
    Phase → CommitEvent → Option System
  | .transferFailed error, .settle faults => some (s.settleFailure c tx error faults)
  | .timedOut, .timeOut flush faults => some (s.finishTimedOutUpload c tx flush faults)
  | .transferred, .precommit fault now persist => some (s.precommit c tx fault now persist)
  | .replaying, .replay result => some (s.replay tx result)
  | .starting, .start space now fault => some (s.startCommit c tx space now fault)
  | .committing, .commit space result => s.commit c tx space result
  | .recording record, .record now fault => some (s.recordCommit c tx record now fault)
  | .rejecting, .record now fault =>
    some ((s.persistTerminal c now tx 0 .rejected (System.storeFault fault)).finish tx)
  | _, _ => none

/-! ## Rolling back -/

/-- How the removal of the stage fails: it stays, or it is gone and an error is reported. -/
inductive UnlinkFault where
  | fails
  | moved
deriving DecidableEq

/-- How a rollback fails. -/
inductive RollbackFault where
  | load
  | unlink (fault : UnlinkFault)
  | store (fault : StoreFault)
deriving DecidableEq

/-- The stage is unlinked for a session. -/
def System.unlink (s : System) (key : UploadSessionKey) : System :=
  { s with stage := none, rolledBack := key :: s.rolledBack }

/-- `remove_file_if_identity` (`upload/record.rs`, lines 777-805): `false` for
    `ReplacementPreserved` and for an error. -/
def System.removeFileIfIdentity (s : System) (key : UploadSessionKey) (expected : FileIdentity)
    (fault : Option UnlinkFault) : Bool × System :=
  match s.stage with
  | none => (true, s)
  | some actual =>
    if actual ≠ expected then (false, s)
    else
      match fault with
      | none => (true, s.unlink key)
      | some .fails => (false, s)
      | some .moved => (false, s.unlink key)

/-- The unlink fault of a rollback. -/
def unlinkFault : Option RollbackFault → Option UnlinkFault
  | some (.unlink fault) => some fault
  | _ => none

/-- The row of a session is removed. -/
def System.forget (s : System) (key : UploadSessionKey) : System :=
  { s with
    sessions := s.sessions.erase key
    rolledBack := s.rolledBack.filter fun k => decide (k ≠ key) }

/-- After a `reset` that succeeded (`upload/commit.rs`, lines 683-708, for an upload that was
    not published). -/
def System.afterReset (s : System) (tx : UploadTransaction) (thenReject : Bool) : System :=
  if thenReject then s.enter tx .rejecting else s.finish tx

/-- `reset` up to the removal of the row (lines 508-526). -/
def System.reset (s : System) (c : Config) (tx : UploadTransaction) (thenReject : Bool)
    (fault : Option RollbackFault) : System :=
  if fault = some .load then s.finish tx
  else
    match s.sessions.get (c.key tx.request.owner) with
    | none => s.afterReset tx thenReject
    | some ⟨session, _⟩ =>
      if !c.binds session then s.finish tx
      else
        match session.stageIdentity with
        | none => s.enter tx (.removing session thenReject)
        | some identity =>
          match s.removeFileIfIdentity (c.key tx.request.owner) identity (unlinkFault fault) with
          | (false, s) => s.finish tx
          | (true, s) => s.enter tx (.removing session thenReject)

/-- The removal of the row in `reset` (lines 527-535). -/
def System.removeRow (s : System) (c : Config) (tx : UploadTransaction)
    (session : StoredUploadSession Path) (thenReject : Bool) (fault : Option RollbackFault) :
    System :=
  let key := c.key tx.request.owner
  let matched := (removeUploadSessionIfMatches s.sessions key session).1
  match fault with
  | some (.store .lost) => if matched then (s.forget key).finish tx else s.finish tx
  | some _ => s.finish tx
  | none => if matched then (s.forget key).afterReset tx thenReject else s.finish tx

/-- The steps of a rollback. The descriptor of `discard_unrecorded_stage` (lines 541-568) is
    dropped after it. -/
def System.rollbackStep (s : System) (c : Config) (tx : UploadTransaction)
    (fault : Option RollbackFault) : Phase → Option System
  | .discarding thenReset =>
    let (_, s) := s.removeFileIfIdentity (c.key tx.request.owner) tx.file (unlinkFault fault)
    some (if thenReset then s.rollBack tx false else s.finish tx)
  | .resetting thenReject => some (s.reset c tx thenReject fault)
  | .removing session thenReject => some (s.removeRow c tx session thenReject fault)
  | _ => none

/-! ## The system -/

/-- What happens. Orphans progress or give up. Others change what the target path names,
    and store and remove sessions that are not of this stage or are terminal. -/
inductive Event where
  | request (r : UploadRequest)
  | prepare (e : PrepareEvent)
  | transfer (e : TransferEvent)
  | commit (e : CommitEvent)
  | rollback (fault : Option RollbackFault)
  | orphan (index bytes : ℕ)
  | orphanFails (index : ℕ)
  | target (entry : Option TargetEntry)
  | storeElsewhere (key : UploadSessionKey) (row : UploadRow Path)
  | removeElsewhere (key : UploadSessionKey)
  | crash (keepEntry : Bool) (tail : List UInt8)
  | restart (now : ℤ)
deriving DecidableEq

/-- A row that only the requests of this stage change. -/
def Config.owns (c : Config) (row : UploadRow Path) : Bool :=
  decide (row.session.stagePath = c.stagePath) && !row.session.state.isTerminal

namespace System

variable (s : System)

/-- An orphan writes `bytes` bytes. -/
def landOrphan (index bytes : ℕ) : Option System :=
  (s.orphans[index]?).map fun orphan =>
    let written := orphan.data.take bytes
    { s.updateData orphan.file fun f => f.writeAt 0 orphan.position written with
      orphans := s.orphans.set index
        { orphan with position := orphan.position + written.length, data := orphan.data.drop bytes } }

/-- A crash. An entry that was not synced may be lost; what was not synced of the stage may
    be lost or become `tail`. -/
def crash (keepEntry : Bool) (tail : List UInt8) : System :=
  { s with
    up := false
    task := none
    orphans := []
    stage := if keepEntry || s.entrySynced then s.stage else none
    entrySynced := true
    files := fun i =>
      if s.stage = some i then { s.files i with data := (s.files i).data.crash tail }
      else s.files i }

/-- `validate_stage_layout` (`upload/record.rs`, lines 170-208) for every row: no session that
    owns the stage records another file than the one that is there. -/
def stageLayoutValid (c : Config) : Bool :=
  !s.sessions.any fun _ row => c.owns row && s.stage.isSome &&
    decide (row.session.stageIdentity ≠ s.stage)

/-- A start of the server: recovery of the store and the validation of the stages. -/
def restart (c : Config) (now : ℤ) : Option System :=
  match recoverUploadSessions c.limits now s.sessions with
  | .error _ => none
  | .ok sessions =>
    let recovered := { s with sessions := sessions }
    if recovered.stageLayoutValid c then some { recovered with up := true } else none

/-- The step of the running request. -/
def taskStep (c : Config) (task : Task) : Event → Option System
  | .prepare e =>
    match task with
    | .transaction tx phase => s.openStep c tx phase e
    | _ => s.prepareStep c task e
  | .transfer e =>
    match task with
    | .transaction tx phase => s.transferStep c tx phase e
    | _ => none
  | .commit e =>
    match task with
    | .transaction tx phase => s.commitStep c tx phase e
    | _ => none
  | .rollback fault =>
    match task with
    | .transaction tx phase => s.rollbackStep c tx fault phase
    | _ => none
  | _ => none

/-- One step. The path lease lets one request run at a time. -/
def step (c : Config) (e : Event) : Option System :=
  match e with
  | .request r => if s.up ∧ s.task = none then some { s with task := some (.looking r) } else none
  | .orphan index bytes => s.landOrphan index bytes
  | .orphanFails index => some { s with orphans := s.orphans.eraseIdx index }
  | .target entry => some { s with target := entry }
  | .storeElsewhere key row =>
    if row.session.stagePath ≠ c.stagePath ∧ (s.sessions.get key).all (fun row => !c.owns row)
    then some { s with sessions := s.sessions.put key row } else none
  | .removeElsewhere key =>
    if (s.sessions.get key).all (fun row => !c.owns row)
    then some { s with sessions := s.sessions.erase key } else none
  | .crash keepEntry tail => if s.up then some (s.crash keepEntry tail) else none
  | .restart now => if s.up = false ∧ s.task = none then s.restart c now else none
  | e =>
    match s.task with
    | none => none
    | some task => s.taskStep c task e

/-- What an event of the running request asks of it. -/
theorem exists_task_of_match {s : System} {f : Task → Option System} {s' : System}
    (h : (match s.task with
      | none => none
      | some task => f task) = some s') : ∃ task ∈ s.task, f task = some s' := by
  cases ht : s.task with
  | none => simp [ht] at h
  | some task => exact ⟨task, rfl, by simpa [ht] using h⟩

/-- A server with an empty store and no stage. -/
def initial (target : Option TargetEntry) : System where
  up := true
  sessions := .empty
  stage := none
  entrySynced := true
  files := fun _ => .new
  target := target
  task := none
  orphans := []
  received := fun _ => []
  rolledBack := []
  published := []

end System

/-- The uploads of one id to one target. -/
def machine (c : Config) (target : Option TargetEntry) : Machine System Event where
  init := System.initial target
  step := fun s e => s.step c e

/-- A small instance, for concrete runs. -/
def exampleConfig : Config where
  uploadId := 1
  targetPath := ["t"]
  stagePath := ["s"]
  limits := ⟨8, 8, 1000⟩
  maxUploadSize := 100
  revisionDigest := fun _ target => target.identity.inode
  isPrivilegedXattr := fun _ => false

end DufsRam.Upload
