import DufsRam.Lib.CallProtocol
import DufsRam.Upload.Prepare

/-!
# The responses of the upload handlers

The status, the error code and the upload headers of a response, the functions that render them
(`upload.rs`, lines 165-254; `upload/protocol.rs`, lines 121-149; `upload/failure.rs`), and the
calls by which a handler learns about the world and changes it. A header that holds a number
holds its canonical decimal digits; the model has the number.
-/

namespace DufsRam.Upload

open StateStore RootedFs

/-! ## Responses -/

/-- `UploadPublicState` (`protocol.rs`, lines 46-56). -/
inductive UploadPublicState where
  | running
  | awaitingConfirmation
  | committed
  | rejected
  | notSeen
  | notStarted
  | unknown
deriving DecidableEq

/-- The error codes (`problem.rs`) of the responses to uploads. -/
inductive ErrorCode where
  | destinationExists
  | pathWaitConcurrencyLimit
  | requestTimeout
  | serverStopping
  | uploadBodyExceedsRemainingLength
  | uploadCheckpointPersistFailed
  | uploadCommittedLengthMismatch
  | uploadConcurrencyLimit
  | uploadIdRejected
  | uploadIdleTimeout
  | uploadInProgress
  | uploadInsufficientStorage
  | uploadLengthChanged
  | uploadLengthMismatch
  | uploadMetadataPreservationRefused
  | uploadNotPublished
  | uploadOffsetChanged
  | uploadOutcomeUnknown
  | uploadPathWaitTimeout
  | uploadPrecommitFailed
  | uploadPublicationDurabilityUnknown
  | uploadPublicationOutcomeUnknown
  | uploadResultUnknown
  | uploadSessionConflict
  | uploadSessionNotFound
  | uploadSessionStoreFull
  | uploadSizeLimitExceeded
  | uploadStageConflict
  | uploadStageInvalid
  | uploadStateConflict
  | uploadStateUnavailable
  | uploadTargetChanged
  | uploadTargetInspectionTimeout
  | uploadTargetNotFound
  | uploadTerminalRecordFailed
deriving DecidableEq

/-- A response: the status, the headers of the upload protocol, and the code of the problem in the
    body. -/
structure UploadResponse where
  status : ℕ
  uploadId : Option Uuid
  state : Option UploadPublicState
  length : Option ℕ
  offset : Option ℕ
  code : Option ErrorCode
deriving DecidableEq

/-- `Response::default()`. -/
def UploadResponse.default : UploadResponse := ⟨200, none, none, none, none, none⟩

/-- `UploadErrorContext` (`upload.rs`, lines 165-171). -/
structure UploadErrorContext where
  uploadId : Uuid
  state : UploadPublicState
  length : Option ℕ
  offset : Option ℕ
deriving DecidableEq

namespace UploadResponse

variable (res : UploadResponse)

/-- `apply_upload_record_headers` (`upload/protocol.rs`, lines 121-149). A number that is not
    given leaves the header as it is. -/
def recordHeaders (context : UploadErrorContext) : UploadResponse :=
  { res with
    uploadId := some context.uploadId
    state := some context.state
    length := context.length.or res.length
    offset := context.offset.or res.offset }

/-- `apply_upload_problem` (`upload.rs`, lines 189-213). -/
def problem (context : UploadErrorContext) (status : ℕ) (code : ErrorCode) : UploadResponse :=
  { res with status := status, code := some code }.recordHeaders context

end UploadResponse

/-! ## Failures -/

/-- An error of a handler, as the code above it tells them apart: `StateStoreDispatchError`, the
    two of `UploadRecordStoreError`, an I/O error `TimedOut`, and the others. -/
inductive Failure where
  | dispatch
  | conflict
  | full
  | timedOut
  | other
deriving DecidableEq

/-- `apply_upload_record_store_problem` (`upload.rs`, lines 219-254); `none` for `Ok(false)`. -/
def UploadResponse.recordStoreProblem (res : UploadResponse) (context : UploadErrorContext) :
    Failure → Option UploadResponse
  | .dispatch => some (res.problem context 503 .uploadStateUnavailable)
  | .conflict => some (res.problem context 409 .uploadSessionConflict)
  | .full => some (res.problem context 503 .uploadSessionStoreFull)
  | .timedOut | .other => none

/-! ## Calls -/

/-- The errors of `track_active_upload_files` that `prepare_upload` tells apart. -/
inductive TrackError where
  | notFound
  | notADirectory
  | timedOut
  | other
deriving DecidableEq

/-- An error of `replacement_metadata` or of the replay: one of the three kinds that refuse the
    overwrite, or another one. -/
inductive MetadataError where
  | refused
  | other (failure : Failure)
deriving DecidableEq

/-- An error of `create_private_upload_stage`. -/
inductive CreateError where
  | alreadyExists
  | other (failure : Failure)
deriving DecidableEq

/-- What a handler calls. A look at the clock has the line of `upload/prepare.rs` or
    `upload/commit.rs` where it stands. -/
inductive UploadCall where
  | now (line : ℕ)
  | lookup
  | track
  | replacementIdentity
  | replacementMetadata
  | openNearestExistingParent
  | reserve
  | beginUploadMutation
  | outcomeCanBeUnknown
  | createPrivateUploadStage
  | discardUnrecordedStage
  | rollbackUploadAncestors
  | reset
  | resetAndAncestors
  | persistInitialCheckpoint (offset : ℕ)
  | persistCheckpoint (offset : ℕ)
  | openResumableStage
  | metadata
  | seek
  | setLen (length : ℕ)
  | syncFile
  | flush
  | reservedSpaceIsAvailable
  | receiveUploadBody
  | applyReplacementMetadata
  | persistCommitStarted
  | commitStagedFile
  | removeEmptyUploadStageDirectory
  | persistAwaitingConfirmation
  | persistTerminal (state : UploadRecordState)
  | persistUnknown
deriving DecidableEq

/-- The answers. A look at the clock says whether the deadline has come; an error of the body has
    the failure that an I/O error stands for. -/
def UploadCall.Answer : UploadCall → Type
  | .now _ | .beginUploadMutation | .outcomeCanBeUnknown | .reservedSpaceIsAvailable => Bool
  | .lookup => Except Failure UploadRecordLookup
  | .track => Except TrackError Unit
  | .replacementIdentity => Except Failure ReplacementTargetIdentity
  | .replacementMetadata =>
    Except MetadataError (ReplacementTargetIdentity × Option PreservedFileMetadata)
  | .reserve | .openResumableStage => Except Failure Bool
  | .createPrivateUploadStage => Except CreateError Unit
  | .metadata => Except Failure ℕ
  | .receiveUploadBody => Except (UploadTransferError × Failure) Unit
  | .applyReplacementMetadata => Except MetadataError Unit
  | .commitStagedFile => ReplaceOutcome
  | _ => Except Failure Unit

/-- The call can create, truncate, write, rename or remove an entry, or write or delete a row. -/
def UploadCall.mutates : UploadCall → Bool
  | .createPrivateUploadStage | .discardUnrecordedStage | .rollbackUploadAncestors | .reset
  | .resetAndAncestors | .persistInitialCheckpoint _ | .persistCheckpoint _ | .setLen _ | .flush
  | .receiveUploadBody | .applyReplacementMetadata | .persistCommitStarted | .commitStagedFile
  | .removeEmptyUploadStageDirectory | .persistAwaitingConfirmation | .persistTerminal _
  | .persistUnknown => true
  | _ => false

/-- What a handler returns: the response as far as it is rendered, and `Ok(())` or an error. -/
structure Handled where
  response : UploadResponse
  result : Except Failure Unit

/-- A handler. -/
abbrev Handler := Prog UploadCall UploadCall.Answer Handled

namespace Handler

/-- Return with the response. -/
def answer (response : UploadResponse) : Handler := .done ⟨response, .ok ()⟩

/-- Return with an error. -/
def fail (response : UploadResponse) (failure : Failure) : Handler := .done ⟨response, .error failure⟩

/-- The operator `?` on a result that is at hand. -/
def check (response : UploadResponse) (result : Except Failure Unit) (next : Handler) : Handler :=
  match result with
  | .error failure => fail response failure
  | .ok _ => next

end Handler

end DufsRam.Upload
