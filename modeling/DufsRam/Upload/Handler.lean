import DufsRam.Upload.Response
import DufsRam.Upload.Transfer

/-!
# The upload handler

Model of `handle_upload` (`upload.rs`, lines 453-493) as a program of calls: `prepare_upload`
(`upload/prepare.rs`, lines 84-1123), `transfer_upload_body` (`upload/transfer.rs`, lines
108-411), `prepare_transferred_upload` and `commit_ready_upload` (`upload/commit.rs`, lines
12-826) and the failure handlers (`upload/failure.rs`), with every response that they render and
every return. What the calls do to the stage and to the sessions is the matter of
`Upload.Prepare` and `Upload.Transfer`.
-/

namespace DufsRam.Upload

open StateStore RootedFs

namespace Handler

section

variable (c : Config) (r : UploadRequest) (res : UploadResponse)

/-- A problem for the upload id of the request. -/
def problem (state : UploadPublicState) (length offset : Option ℕ) (status : ℕ)
    (code : ErrorCode) : UploadResponse :=
  res.problem ⟨c.uploadId, state, length, offset⟩ status code

/-! ## Deadlines and the mutation boundary -/

/-- The problem of `upload_deadline_expired_before_mutation` (`upload/failure.rs`, lines 404-429)
    and of `begin_upload_mutation_or_reject` (`upload/prepare.rs`, lines 1098-1123). -/
def notStarted : UploadResponse :=
  problem c res .notStarted (some r.uploadLength) r.mode.offset 408 .requestTimeout

/-- `apply_upload_unknown` (`upload/failure.rs`, lines 3-16). -/
def unknown : UploadResponse := problem c res .unknown none none 408 .uploadOutcomeUnknown

/-- `apply_awaiting_confirmation_problem` (lines 18-39). -/
def awaiting (status : ℕ) (code : ErrorCode) : UploadResponse :=
  problem c res .awaitingConfirmation (some r.uploadLength) (some r.uploadLength) status code

/-- `upload_deadline_expired_before_mutation`, and the return if it has. -/
def unlessExpired (line : ℕ) (next : Handler) : Handler :=
  .call (.now line) fun (expired : Bool) =>
    if expired then answer (notStarted c r res) else next

/-- `upload_deadline_expired_before_mutation` where its answer is ignored, and the return. -/
def answerExpired (line : ℕ) : Handler :=
  .call (.now line) fun (expired : Bool) =>
    answer (if expired then notStarted c r res else res)

/-- `begin_upload_mutation_or_reject`, and the return if it has rejected. -/
def beginOrReject (next : Handler) : Handler :=
  .call .beginUploadMutation fun (began : Bool) =>
    if began then next else answer (notStarted c r res)

/-- `render_upload_target_conflict` (`upload/target.rs`, lines 94-127), and the return. -/
def targetConflict (state : UploadPublicState) (length offset : Option ℕ) : Handler :=
  .call .replacementIdentity fun
    | .error failure => fail res failure
    | .ok identity =>
      answer (problem c res state length offset 409
        (if identity ≠ .missing then .destinationExists else .uploadTargetChanged))

/-! ## Failure handlers -/

/-- The stage is cut back to the offset at which the request began, and synced. -/
def cutBack (next : Handler) : Handler :=
  .call (.setLen r.initialOffset) fun cut =>
    check res cut (.call .syncFile fun synced => check res synced next)

/-- `finish_timed_out_upload` (`upload/failure.rs`, lines 200-368). A fresh upload has its created
    ancestors until then. -/
def finishTimedOutUpload : Handler :=
  .call .flush fun
    | .error failure =>
      if r.mode.isResume then fail res failure
      else
        .call .discardUnrecordedStage fun discarded =>
          .call .resetAndAncestors fun reset =>
            check res reset (check res discarded (fail res failure))
    | .ok _ =>
      .call .metadata fun
        | .error failure =>
          if r.mode.isResume then fail res failure
          else .call .resetAndAncestors fun reset => check res reset (fail res failure)
        | .ok partialSize =>
          -- Lines 265-270 spell out the test of `upload/transfer.rs`.
          if partialUploadIsCheckpointable partialSize r.initialOffset r.uploadLength
              r.mode.isResume then
            if r.mode.isResume then
              .call (.persistCheckpoint partialSize) fun
                | .error failure => fail res failure
                | .ok _ => answer (unknown c { res with offset := some partialSize })
            else
              .call (.persistInitialCheckpoint partialSize) fun
                | .error failure =>
                  .call .discardUnrecordedStage fun discarded =>
                    .call .resetAndAncestors fun reset =>
                      check res reset (check res discarded (fail res failure))
                | .ok _ => answer (unknown c { res with offset := some partialSize })
          else if r.mode.isResume then
            let finished := answer (unknown c { res with offset := some r.initialOffset })
            if r.initialOffset < partialSize then cutBack r res finished else finished
          else
            .call .discardUnrecordedStage fun discarded =>
              .call .resetAndAncestors fun reset =>
                check res reset (check res discarded (answer (unknown c res)))

/-- `finish_precommit_space_failure` (lines 42-120). -/
def finishPrecommitSpaceFailure : Handler :=
  if r.mode.isResume then
    let finished := answer (problem c res .running (some r.uploadLength) (some r.initialOffset) 507
      .uploadInsufficientStorage)
    .call (.setLen r.initialOffset) fun
      | .error _ => finished
      | .ok _ => .call .syncFile fun _ => finished
  else
    .call .resetAndAncestors fun
      | .error _ => answer (unknown c res)
      | .ok _ =>
        answer (problem c res .rejected (some r.uploadLength) none 507 .uploadInsufficientStorage)

/-- `finish_precommit_io_failure` (lines 123-187). -/
def finishPrecommitIoFailure : Handler :=
  if r.mode.isResume then
    answer (problem c res .running (some r.uploadLength) (some r.initialOffset) 500
      .uploadPrecommitFailed)
  else
    .call .resetAndAncestors fun
      | .error _ => answer (unknown c res)
      | .ok _ =>
        answer (problem c res .rejected (some r.uploadLength) none 500 .uploadPrecommitFailed)

/-- A rollback whose failure makes the outcome unknown (`upload/commit.rs`, lines 412-449, 468-505
    and 514-551). -/
def rollBackOrUnknown (status : ℕ) (code : ErrorCode) : Handler :=
  .call .resetAndAncestors fun
    | .error _ => answer (unknown c res)
    | .ok _ => answer (problem c res .rejected (some r.uploadLength) none status code)

/-! ## Committing -/

/-- The status of a new file and of a finished one (`upload/prepare.rs`, lines 796 and 892). -/
def successStatus : UploadMode → ℕ
  | .fresh => 201
  | .resume _ => 204

/-- `commit_ready_upload` (`upload/commit.rs`, lines 576-826). -/
def commitReadyUpload : Handler :=
  .call .commitStagedFile fun
    | .published =>
      .call .removeEmptyUploadStageDirectory fun _ =>
        .call (.persistTerminal .committed) fun
          | .error _ =>
            answer (problem c res .unknown (some r.uploadLength) (some r.uploadLength) 500
              .uploadTerminalRecordFailed)
          | .ok _ =>
            answer ({ res with status := successStatus r.mode }.recordHeaders
              ⟨c.uploadId, .committed, some r.uploadLength, some r.uploadLength⟩)
    | .rejected =>
      .call .persistAwaitingConfirmation fun
        | .error _ => answer (unknown c res)
        | .ok _ =>
          targetConflict c res .awaitingConfirmation (some r.uploadLength) (some r.uploadLength)
    | .notPublished _ =>
      .call .resetAndAncestors fun reset =>
        check res reset (.call (.persistTerminal .rejected) fun _ =>
          answer (problem c res .rejected (some r.uploadLength) none 500 .uploadNotPublished))
    | .publishedDurabilityUnknown =>
      .call .persistUnknown fun _ =>
        .call .removeEmptyUploadStageDirectory fun _ =>
          answer (problem c res .unknown (some r.uploadLength) (some r.uploadLength) 500
            .uploadPublicationDurabilityUnknown)

/-- The space check after the replay, the record of the commit and the last space check (lines
    393-553). -/
def startCommit (awaits : Bool) : Handler :=
  .call .reservedSpaceIsAvailable fun (available : Bool) =>
    if !available then
      if awaits then answer (awaiting c r res 507 .uploadInsufficientStorage)
      else rollBackOrUnknown c r res 507 .uploadInsufficientStorage
    else
      .call .persistCommitStarted fun
        | .error _ => rollBackOrUnknown c r res 500 .uploadCheckpointPersistFailed
        | .ok _ =>
          .call .reservedSpaceIsAvailable fun (available : Bool) =>
            if !available then rollBackOrUnknown c r res 507 .uploadInsufficientStorage
            else commitReadyUpload c r res

/-- The replay of the target's metadata (lines 312-392). -/
def replayMetadata (awaits : Bool) (metadata : Option PreservedFileMetadata) : Handler :=
  match metadata with
  | none => startCommit c r res awaits
  | some _ =>
    .call .applyReplacementMetadata fun
      | .ok _ => startCommit c r res awaits
      | .error .refused =>
        if awaits then answer (awaiting c r res 409 .uploadMetadataPreservationRefused)
        else
          .call .resetAndAncestors fun reset =>
            check res reset (answer (problem c res .rejected (some r.uploadLength) none 409
              .uploadMetadataPreservationRefused))
      | .error (.other failure) =>
        if awaits then answer (awaiting c r res 500 .uploadPrecommitFailed)
        else .call .resetAndAncestors fun reset => check res reset (fail res failure)

/-- A deadline before the commit (lines 114-144, 165-195 and 274-304). -/
def unlessLate (line : ℕ) (awaits : Bool) (next : Handler) : Handler :=
  .call (.now line) fun (expired : Bool) =>
    if expired then
      if awaits then answer (awaiting c r res 408 .requestTimeout)
      else finishTimedOutUpload c r res
    else next

/-- The length check (lines 196-272). -/
def checkLength (awaits : Bool) (actualLength : ℕ) (next : Handler) : Handler :=
  if actualLength = r.uploadLength then next
  else if awaits then answer (awaiting c r res 409 .uploadStageInvalid)
  else if actualLength < r.uploadLength then
    .call (.persistCheckpoint actualLength) fun persisted =>
      check res persisted (answer (problem c { res with offset := some actualLength } .running
        (some r.uploadLength) (some actualLength) 409 .uploadLengthMismatch))
  else
    .call .resetAndAncestors fun reset =>
      check res reset (answer (problem c res .rejected (some r.uploadLength) none 409
        .uploadLengthMismatch))

/-- `prepare_transferred_upload` (lines 12-574). -/
def prepareTransferredUpload (awaits : Bool) (metadata : Option PreservedFileMetadata) : Handler :=
  .call .flush fun
    | .error _ =>
      if awaits then answer (awaiting c r res 500 .uploadPrecommitFailed)
      else finishPrecommitIoFailure c r res
    | .ok _ =>
      .call .reservedSpaceIsAvailable fun (available : Bool) =>
        if !available then
          if awaits then answer (awaiting c r res 507 .uploadInsufficientStorage)
          else finishPrecommitSpaceFailure c r res
        else
          unlessLate c r res 114 awaits (.call .metadata fun
            | .error failure =>
              if awaits then answer (awaiting c r res 500 .uploadPrecommitFailed)
              else fail res failure
            | .ok actualLength =>
              unlessLate c r res 165 awaits (checkLength c r res awaits actualLength
                (unlessLate c r res 274 awaits (replayMetadata c r res awaits metadata))))

/-! ## The body -/

/-- `apply_awaiting_confirmation_transfer_error` (`upload/transfer.rs`, lines 51-103). -/
def awaitingTransferError : UploadTransferError → UploadResponse
  | .io => awaiting c r res 500 .uploadPrecommitFailed
  | .idleTimeout => awaiting c r res 408 .uploadIdleTimeout
  | .totalTimeout => awaiting c r res 408 .requestTimeout
  | .excessBody => awaiting c r res 413 .uploadBodyExceedsRemainingLength
  | .insufficientStorage => awaiting c r res 507 .uploadInsufficientStorage

/-- What becomes of an upload that is cut back: `running` with the offset it began at, or
    `rejected`. -/
def cutBackProblem (status : ℕ) (code : ErrorCode) : UploadResponse :=
  problem c res (if r.mode.isResume then .running else .rejected) (some r.uploadLength)
    r.mode.offset status code

/-- The checkpoint or the rollback of what was received of a body (lines 271-315 and 341-381). The
    rest learns whether there is a checkpoint. -/
def settlePartial (partialSize : ℕ) (next : Bool → Handler) : Handler :=
  if partialUploadIsCheckpointable partialSize r.initialOffset r.uploadLength r.mode.isResume then
    .call (.persistCheckpoint partialSize) fun persisted => check res persisted (next true)
  else if r.mode.isResume then fail res .other
  else .call .resetAndAncestors fun reset => check res reset (next false)

/-- The failures of a transfer except for the total timeout (lines 188-385). -/
def settleTransferError (failure : Failure) (partialSize : ℕ) : UploadTransferError → Handler
  | .excessBody =>
    let finished := answer (cutBackProblem c r res 413 .uploadBodyExceedsRemainingLength)
    if r.mode.isResume then cutBack r res finished
    else .call .resetAndAncestors fun reset => check res reset finished
  | .insufficientStorage =>
    let finished := answer (cutBackProblem c r res 507 .uploadInsufficientStorage)
    cutBack r res (if r.mode.isResume then finished
      else .call .resetAndAncestors fun reset => check res reset finished)
  | .idleTimeout =>
    settlePartial r res partialSize fun kept =>
      if kept then
        answer (problem c { res with offset := some partialSize } .running (some r.uploadLength)
          (some partialSize) 408 .uploadIdleTimeout)
      else answer (problem c res .rejected (some r.uploadLength) none 408 .uploadIdleTimeout)
  | .io => settlePartial r res partialSize fun _ => fail res failure
  -- Handled before.
  | .totalTimeout => fail res .other

/-- `transfer_upload_body` (lines 108-411). -/
def transferUploadBody (awaits : Bool) (metadata : Option PreservedFileMetadata) : Handler :=
  .call .receiveUploadBody fun
    | .ok _ => prepareTransferredUpload c r res awaits metadata
    | .error (error, failure) =>
      if awaits then answer (awaitingTransferError c r res error)
      else if error = .totalTimeout then finishTimedOutUpload c r res
      else
        .call .metadata fun
          | .ok partialSize => settleTransferError c r res failure partialSize error
          | .error metadataFailure =>
            if r.mode.isResume then fail res metadataFailure
            else settleTransferError c r res failure 0 error

/-! ## Preparation: the open stage -/

/-- The two looks at the deadline once the stage is open (`upload/prepare.rs`, lines 895-924 and
    1034-1063). The first one counts only for a resumed upload that has not begun to write; the
    handler of the second one writes. -/
def unlessPassed (first answered second : ℕ) (next : Handler) : Handler :=
  let again : Handler := .call (.now second) fun (expired : Bool) =>
    if expired then finishTimedOutUpload c r res else next
  .call (.now first) fun (expired : Bool) =>
    if expired && r.mode.isResume then
      .call .outcomeCanBeUnknown fun (unknown : Bool) =>
        if unknown then again else answerExpired c r res answered
    else again

/-- The space check of an open stage, the last look at the deadline and the transfer (lines
    988-1095). -/
def confirmSpace (awaits : Bool) (metadata : Option PreservedFileMetadata) : Handler :=
  .call .reservedSpaceIsAvailable fun (available : Bool) =>
    if available then
      unlessPassed c r res 1034 1035 1045
        (beginOrReject c r res (transferUploadBody c r res awaits metadata))
    else if awaits then answer (awaiting c r res 507 .uploadInsufficientStorage)
    else beginOrReject c r res (finishPrecommitSpaceFailure c r res)

/-- The reservation (lines 926-987). A fresh upload has it already. -/
def reserveSpace (awaits : Bool) (metadata : Option PreservedFileMetadata) : Handler :=
  if r.mode.isResume then
    .call .reserve fun
      | .error failure => fail res failure
      | .ok true => confirmSpace c r res awaits metadata
      | .ok false =>
        if awaits then answer (awaiting c r res 507 .uploadInsufficientStorage)
        else answer (cutBackProblem c r res 507 .uploadInsufficientStorage)
  else confirmSpace c r res awaits metadata

/-- The state in which a session is left (lines 521-524, 565-572 and 826-830). -/
def heldState (checkpoint : UploadCheckpoint) : UploadPublicState :=
  if checkpoint.state = .awaitingConfirmation then .awaitingConfirmation else .running

/-- The truncation and the new binding of a reopened stage (lines 853-891). -/
def bindResumed (checkpoint : UploadCheckpoint) (length : ℕ) (next : Handler) : Handler :=
  let bound :=
    if checkpoint.state = .running ∧ checkpoint.targetRevision ≠ r.overwrite.revision then
      beginOrReject c r res (.call (.persistCheckpoint r.initialOffset) fun persisted =>
        check res persisted next)
    else next
  if r.initialOffset < length then
    beginOrReject c r res (.call (.setLen r.initialOffset) fun cut => check res cut bound)
  else bound

/-- The stage of a resumed upload (lines 806-893). -/
def openResumed (checkpoint : UploadCheckpoint) (next : Handler) : Handler :=
  .call .openResumableStage fun
    | .error failure => fail res failure
    | .ok false =>
      answer (problem c res (heldState checkpoint) (some r.uploadLength) r.mode.offset 409
        .uploadStageInvalid)
    | .ok true =>
      .call .metadata fun
        | .error failure => fail res failure
        | .ok length =>
          .call .seek fun sought =>
            check res sought
              (unlessExpired c r res 843 (bindResumed c r res checkpoint length next))

/-- The removal of a fresh stage that has no row (lines 680-688, 701-709 and 722-729). -/
def undoFresh (next : Handler) : Handler :=
  .call .discardUnrecordedStage fun discarded =>
    .call .rollbackUploadAncestors fun rolledBack =>
      check res rolledBack (check res discarded next)

/-- The first checkpoint of a fresh stage (lines 741-796). -/
def firstCheckpoint (next : Handler) : Handler :=
  .call (.now 741) fun (expired : Bool) =>
    if expired then finishTimedOutUpload c r res
    else
      .call (.persistInitialCheckpoint 0) fun
        | .ok _ => next
        | .error failure =>
          .call .discardUnrecordedStage fun discarded =>
            .call .reset fun reset =>
              .call .rollbackUploadAncestors fun rolledBack =>
                check res discarded (check res reset (check res rolledBack (fail res failure)))

/-- The stage of a fresh upload (lines 646-731). -/
def createStage (next : Handler) : Handler :=
  .call .createPrivateUploadStage fun
    | .error .alreadyExists =>
      answer (problem c res .notSeen (some r.uploadLength) none 409 .uploadStageConflict)
    | .error (.other failure) => fail res failure
    | .ok _ =>
      .call .track fun
        | .error .timedOut =>
          undoFresh res (.call (.now 689) fun (expired : Bool) =>
            answer (if expired then unknown c res else res))
        | .error _ => undoFresh res (fail res .other)
        | .ok _ =>
          .call (.now 713) fun (expired : Bool) =>
            if expired then undoFresh (unknown c res) (answer (unknown c res))
            else firstCheckpoint c r res next

/-- A fresh upload up to its first checkpoint (lines 592-645). -/
def createFresh (next : Handler) : Handler :=
  .call .openNearestExistingParent fun
    | .error failure => fail res failure
    | .ok _ =>
      .call .reserve fun
        | .error failure => fail res failure
        | .ok false =>
          answer (problem c res .rejected (some r.uploadLength) none 507 .uploadInsufficientStorage)
        | .ok true => unlessExpired c r res 625 (beginOrReject c r res (createStage c r res next))

/-! ## Preparation: the checks -/

/-- `UPLOAD_SESSION_NOT_FOUND` (lines 129-136, 312-324 and 490-497). -/
def notFound : UploadResponse := problem c res .notSeen none none 404 .uploadSessionNotFound

/-- From the checks of the session on (lines 519-1095). `session` is `session_checkpoint`. -/
def checkSession (session : Option UploadCheckpoint) (metadata : Option PreservedFileMetadata) :
    Handler :=
  let checkBody (next : Handler) : Handler :=
    if r.uploadLength < r.initialOffset then fail res .other
    else if r.requestBodyLength.any fun length =>
        decide (r.uploadLength - r.initialOffset < length) then
      answer (problem c res ((session.map heldState).getD .rejected) (some r.uploadLength)
        r.mode.offset 413 .uploadBodyExceedsRemainingLength)
    else next
  match session with
  | none => checkBody (createFresh c r res (unlessPassed c r res 895 896 906
      (reserveSpace c r res false metadata)))
  | some checkpoint =>
    let changed (code : ErrorCode) : UploadResponse :=
      problem c res (heldState checkpoint) (some checkpoint.uploadLength)
        (some checkpoint.durableOffset) 409 code
    if checkpoint.uploadLength ≠ r.uploadLength then answer (changed .uploadLengthChanged)
    else if checkpoint.durableOffset ≠ r.initialOffset then answer (changed .uploadOffsetChanged)
    else checkBody (openResumed c r res checkpoint (unlessPassed c r res 895 896 906
      (reserveSpace c r res (decide (checkpoint.state = .awaitingConfirmation)) metadata)))

/-- From the known target on (lines 478-518). -/
def afterInspection (record : Option UploadCheckpoint) (metadata : Option PreservedFileMetadata) :
    Handler :=
  unlessExpired c r res 478
    (match r.mode, record with
      | .resume _, none => answer (notFound c res)
      | .resume _, some checkpoint =>
        unlessExpired c r res 509 (checkSession c r res (some checkpoint) metadata)
      | .fresh, _ => unlessExpired c r res 509 (checkSession c r res none metadata))

/-- `conflict_state` (lines 356-362). -/
def conflictState (record : Option UploadCheckpoint) : UploadPublicState :=
  match record.map UploadCheckpoint.state with
  | some .awaitingConfirmation => .awaitingConfirmation
  | some .running => .running
  | _ => .notStarted

/-- The inspection of the target (lines 363-477). -/
def inspectTarget (record : Option UploadCheckpoint) : Handler :=
  let offset := record.map UploadCheckpoint.durableOffset
  let conflict := targetConflict c res (conflictState record) (some r.uploadLength) offset
  .call .replacementIdentity fun
    | .error failure => fail res failure
    | .ok identity =>
      match r.overwrite with
      | .noReplace =>
        if identity ≠ .missing ∧ ¬(r.mode.isResume ∧
            record.any fun record => decide (record.state = .running)) then
          answer (problem c res (conflictState record) (some r.uploadLength) offset 409
            .destinationExists)
        else if record.any fun record =>
            decide (record.state = .awaitingConfirmation) && !awaitingStageIsCreateOnly record then
          answer (problem c res .awaitingConfirmation (some r.uploadLength) offset 409
            .uploadMetadataPreservationRefused)
        else afterInspection c r res record none
      | .ifUnchanged expected =>
        if refusesIfUnchanged c r.owner expected identity then conflict
        else
          .call .replacementMetadata fun
            | .error .refused => conflict
            | .error (.other failure) => fail res failure
            | .ok (identity, metadata) =>
              if c.targetRevision r.owner identity ≠ some expected then conflict
              else afterInspection c r res record metadata

/-- A resumed upload marks its stage as active first (lines 302-355). -/
def trackResumed (record : Option UploadCheckpoint) : Handler :=
  if r.mode.isResume then
    .call .track fun
      | .error .notFound | .error .notADirectory => answer (notFound c res)
      | .error .timedOut => answerExpired c r res 328
      | .error .other => fail res .other
      | .ok _ => unlessExpired c r res 345 (inspectTarget c r res record)
  else inspectTarget c r res record

/-- The decision on the record that was found (lines 140-282). -/
def admitFound (record : UploadCheckpoint) : Handler :=
  let held (state : UploadPublicState) (status : ℕ) (code : ErrorCode) : UploadResponse :=
    problem c res state (some record.uploadLength) (some record.durableOffset) status code
  match record.state with
  | .committed =>
    if record.uploadLength = r.uploadLength then
      answer ({ res with status := 200 }.recordHeaders
        ⟨c.uploadId, .committed, some record.uploadLength, some record.durableOffset⟩)
    else answer (held .committed 409 .uploadCommittedLengthMismatch)
  | .rejected => answer (held .rejected 409 .uploadIdRejected)
  | .running =>
    if r.mode.isResume then trackResumed c r res (some record)
    else answer (held .running 409 .uploadInProgress)
  | .awaitingConfirmation =>
    if !r.mode.isResume then
      targetConflict c res .awaitingConfirmation (some record.uploadLength)
        (some record.durableOffset)
    else if record.uploadLength ≠ r.uploadLength then
      answer (held .awaitingConfirmation 409 .uploadLengthChanged)
    else if r.mode.offset ≠ some record.durableOffset then
      answer (held .awaitingConfirmation 409 .uploadOffsetChanged)
    else trackResumed c r res (some record)
  | .unknown => answer (held .unknown 500 .uploadPublicationOutcomeUnknown)

/-- `prepare_upload` (lines 84-1095), with what follows if it returns a transaction. -/
def prepareUpload : Handler :=
  let res := { res with uploadId := some c.uploadId }
  unlessExpired c r res 109 (.call .lookup fun
    | .error failure => fail res failure
    | .ok .foreignOwner => answer (notFound c res)
    | .ok (.found record) => admitFound c r res record
    | .ok .notSeen =>
      if c.maxUploadSize < r.uploadLength then
        answer (problem c res .rejected (some r.uploadLength) none 413 .uploadSizeLimitExceeded)
      else trackResumed c r res none)

/-- What `handle_upload` does with an error (`upload.rs`, lines 477-492). -/
def renderStoreProblem (handled : Handled) : Handler :=
  match handled.result with
  | .ok _ => .done handled
  | .error failure =>
    match handled.response.recordStoreProblem
        ⟨c.uploadId, .unknown, some r.uploadLength, r.mode.offset⟩ failure with
    | some response => answer response
    | none => .done handled

/-- `handle_upload` (`upload.rs`, lines 453-493). -/
def handleUpload : Handler := (prepareUpload c r res).bind (renderStoreProblem c r)

/-! ## Queries -/

/-- `handle_upload_status` (`upload.rs`, lines 268-347). -/
def handleUploadStatus : Handler :=
  .call .lookup fun
    | .error failure =>
      match res.recordStoreProblem ⟨c.uploadId, .unknown, none, none⟩ failure with
      | some response => answer response
      | none => fail res failure
    | .ok .notSeen | .ok .foreignOwner =>
      answer ({ res with status := 404 }.recordHeaders ⟨c.uploadId, .notSeen, none, none⟩)
    | .ok (.found checkpoint) =>
      let context (state : UploadPublicState) : UploadErrorContext :=
        ⟨c.uploadId, state, some checkpoint.uploadLength, some checkpoint.durableOffset⟩
      match checkpoint.state with
      | .running => answer (res.recordHeaders (context .running))
      | .awaitingConfirmation =>
        let conflict := { res with status := 409 }
        .call .replacementIdentity fun
          | .error failure => fail conflict failure
          | .ok _ => answer (conflict.recordHeaders (context .awaitingConfirmation))
      | .committed => answer (res.recordHeaders (context .committed))
      | .rejected => answer ({ res with status := 409 }.recordHeaders (context .rejected))
      | .unknown =>
        answer (res.problem (context .unknown) 500 .uploadPublicationOutcomeUnknown)

/-- `dispatch_upload_status` for a valid id (`router/files.rs`, lines 710-730); `admitted` if the
    request gets a place in the queue for its path. -/
def dispatchUploadStatus (admitted : Bool) : Handler :=
  if admitted then handleUploadStatus c res
  else answer (problem c res .unknown none none 429 .pathWaitConcurrencyLimit)

end

end Handler

end DufsRam.Upload
