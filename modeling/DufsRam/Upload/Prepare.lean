import DufsRam.Upload.Protocol

/-!
# Preparing an upload

Model of `prepare_upload` (`upload/prepare.rs`, lines 84-1095): what a request checks before
it touches anything, the creation of a fresh stage with its first checkpoint, and the
reopening of a stage with the truncation of what no checkpoint covers.

A return that leaves nothing to undo (a refused request, an expired deadline, a failed call
before the first effect) is the event `quit` or ends the request in the step where the
source returns.
-/

namespace DufsRam.Upload

open StateStore RootedFs

/-! ## Checks -/

/-- The decision on the looked-up record (lines 126-301): `none` if the request ends here,
    else the record it goes on with. -/
def admitRecord (c : Config) (r : UploadRequest) :
    UploadRecordLookup → Option (Option UploadCheckpoint)
  | .foreignOwner => none
  | .notSeen => if c.maxUploadSize < r.uploadLength then none else some none
  | .found record =>
    match record.state with
    | .committed | .rejected | .unknown => none
    | .running => if r.mode.isResume then some (some record) else none
    | .awaitingConfirmation =>
      if r.mode.isResume ∧ record.uploadLength = r.uploadLength ∧
          r.mode.offset = some record.durableOffset then some (some record)
      else none

/-- `awaiting_stage_is_create_only` (lines 11-14). -/
def awaitingStageIsCreateOnly (checkpoint : UploadCheckpoint) : Bool :=
  decide (checkpoint.state = .awaitingConfirmation) && checkpoint.targetRevision.isNone

/-- Whether a `NoReplace` request is refused (lines 373-412). -/
def refusesNoReplace (r : UploadRequest) (record : Option UploadCheckpoint)
    (identity : ReplacementTargetIdentity) : Bool :=
  (decide (identity ≠ .missing) &&
      !(r.mode.isResume && record.any fun record => decide (record.state = .running))) ||
    record.any fun record =>
      decide (record.state = .awaitingConfirmation) && !awaitingStageIsCreateOnly record

/-- Whether an `IfUnchanged` request is refused at the inspection (lines 414-416). -/
def refusesIfUnchanged (c : Config) (owner expected : Digest)
    (identity : ReplacementTargetIdentity) : Bool :=
  decide (c.targetRevision owner identity ≠ some expected) || !isReplaceable identity

/-- The checks of the request against the session it resumes, and of the body length (lines
    488-587). -/
def admitCheckpoint (r : UploadRequest) (record : Option UploadCheckpoint) : Bool :=
  (match r.mode, record with
    | .fresh, _ => true
    | .resume _, none => false
    | .resume _, some checkpoint => decide (checkpoint.uploadLength = r.uploadLength) &&
        decide (checkpoint.durableOffset = r.initialOffset)) &&
    decide (r.initialOffset ≤ r.uploadLength) &&
    r.requestBodyLength.all fun length => decide (length ≤ r.uploadLength - r.initialOffset)

/-- The request goes on to the stage, as `session_checkpoint` and the target say (lines
    488-503 and 592). -/
def Task.afterChecks (r : UploadRequest) (record : Option UploadCheckpoint)
    (targetIdentity : ReplacementTargetIdentity) (targetMetadata : Option PreservedFileMetadata) :
    Option Task :=
  if admitCheckpoint r record then
    match r.mode with
    | .fresh => some (.creating ⟨r, none, targetIdentity, targetMetadata⟩)
    | .resume _ => some (.reopening ⟨r, record, targetIdentity, targetMetadata⟩)
  else none

/-- The answer to a failed space check before the transfer and before the commit:
    `finish_precommit_space_failure` (`upload/failure.rs`, lines 42-120), which a
    confirmation does not reach. A failure to cut the stage back is only logged. -/
def System.finishSpaceFailure (s : System) (tx : UploadTransaction)
    (fault : Option System.TruncateFault) : System :=
  if tx.awaiting then s.finish tx
  else if tx.resume then
    let (_, s, tx) := s.cutBack tx fault
    s.finish tx
  else s.rollBack tx false

/-! ## Steps -/

/-- What happens to a request before its body is received. -/
inductive PrepareEvent where
  | quit
  | lookup (denied : Bool)
  | inspect
  | preserve
  | create (file : FileIdentity)
  | abandon
  | reopen (denied : Bool)
  | truncate (fails : Bool)
  | persist (now : ℤ) (fault : Option PersistFault)
  | noSpace (fault : Option System.TruncateFault)
  | deadline
  | begin
deriving DecidableEq

/-- The phase after the truncation of a resumed stage (lines 866-868). -/
def UploadTransaction.afterTruncation (tx : UploadTransaction) : Phase :=
  if tx.checkpoint.any fun checkpoint => decide (checkpoint.state = .running) &&
      decide (checkpoint.targetRevision ≠ tx.targetRevision) then .rebinding
  else .reserving

/-- The bytes that count as received for a session. -/
def System.setReceived (s : System) (key : UploadSessionKey) (bytes : List UInt8) : System :=
  { s with received := Function.update s.received key bytes }

/-- The transfer begins. What a fresh upload received before does not count any more, nor
    what lies beyond the offset of a resumed one. -/
def System.begin (s : System) (c : Config) (tx : UploadTransaction) : System :=
  let key := c.key tx.request.owner
  (s.setReceived key ((s.received key).take tx.initialOffset)).enter tx
    (.transferring (tx.request.uploadLength - tx.initialOffset))

/-- `create_private_upload_stage` (line 649): the new stage, or `AlreadyExists`. -/
def System.createStage (s : System) (p : Preparation) (file : FileIdentity) : Option System :=
  if s.stage.isSome then some { s with task := none }
  else if s.live file then none
  else
    let created := { s with
      stage := some file
      entrySynced := false
      files := Function.update s.files file .new }
    some (created.enter { p with file := file, cursor := 0, queued := [] } .initialCheckpoint)

/-- The step of a request that has no file yet (lines 119-587 and 646-670). -/
def System.prepareStep (s : System) (c : Config) : Task → PrepareEvent → Option System
  | .transaction _ _, _ => none
  | _, .quit => some { s with task := none }
  | .looking r, .lookup denied =>
    some { s with
      task := (admitRecord c r (s.lookup c (c.key r.owner) denied)).map (Task.inspecting r) }
  | .inspecting r record, .inspect =>
    let identity := replacementIdentity s.target
    match r.overwrite with
    | .noReplace =>
      some { s with
        task := if refusesNoReplace r record identity then none
          else Task.afterChecks r record .missing none }
    | .ifUnchanged expected =>
      some { s with
        task := if refusesIfUnchanged c r.owner expected identity then none
          else some (.preserving r record) }
  | .preserving r record, .preserve =>
    match replacementMetadata c.isPrivilegedXattr s.target with
    | none => some { s with task := none }
    | some (identity, metadata) =>
      some { s with
        task := if c.targetRevision r.owner identity ≠ r.overwrite.revision then none
          else Task.afterChecks r record identity metadata }
  | .creating p, .create file => s.createStage p file
  | .reopening p, .reopen denied =>
    match p.checkpoint with
    | none => none
    | some checkpoint =>
      match s.openResumableStage c p.request p.request.initialOffset checkpoint.state denied with
      | none => some { s with task := none }
      | some file =>
        some (s.enter { p with file := file, cursor := p.request.initialOffset, queued := [] }
          .truncating)
  | _, _ => none

/-- The steps from the open stage to the body (lines 673-1074). The deadline is looked at
    several times; a resumed upload that has not begun to write then returns, which is
    `quit`. -/
def System.openStep (s : System) (c : Config) (tx : UploadTransaction) :
    Phase → PrepareEvent → Option System
  | .initialCheckpoint, .abandon => some (s.enter tx (.discarding false))
  | .initialCheckpoint, .deadline => some (s.enter tx .timedOut)
  | .initialCheckpoint, .persist now fault =>
    match s.persistCheckpoint c now tx (some tx.targetRevision) 0 true fault with
    | (true, s, tx) => some (s.enter tx .reserving)
    | (false, s, tx) => some (s.enter tx (.discarding true))
  | .truncating, .quit => some (s.finish tx)
  | .truncating, .truncate fails =>
    if tx.initialOffset < (s.files tx.file).data.content.length then
      if fails then some (s.finish tx)
      else some ((s.updateData tx.file fun f => f.setLen 0 tx.initialOffset).enter tx
        tx.afterTruncation)
    else some (s.enter tx tx.afterTruncation)
  | .rebinding, .quit => some (s.finish tx)
  | .rebinding, .persist now fault =>
    match s.persistCheckpoint c now tx (some tx.targetRevision) tx.initialOffset false fault with
    | (true, s, tx) => some (s.enter tx .reserving)
    | (false, s, tx) => some (s.finish tx)
  | .reserving, .quit => if tx.resume then some (s.finish tx) else none
  | .reserving, .deadline => some (s.enter tx .timedOut)
  | .reserving, .noSpace fault => some (s.finishSpaceFailure tx fault)
  | .reserving, .begin => some (s.begin c tx)
  | _, _ => none

end DufsRam.Upload
