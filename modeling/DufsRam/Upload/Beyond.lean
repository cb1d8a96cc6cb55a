import DufsRam.Upload.Handler

/-!
# The upload handler beyond the mutation boundary

From the transfer of the body on, the upload handler is walked through once, for every property
of handlers that the calls and the responses of this part have (`Beyond`).

Results:
* `Beyond.transferUploadBody`: `transfer_upload_body` with all that follows.
* `Beyond.finishTimedOutUpload`, `Beyond.firstCheckpoint`: what comes before it and already writes.
-/

namespace DufsRam.Upload

open StateStore RootedFs

/-- The error of the state store or of the file system in an answer. -/
def UploadCall.failure : (call : UploadCall) → call.Answer → Option Failure
  | .lookup, .error failure | .replacementIdentity, .error failure | .reserve, .error failure
  | .openResumableStage, .error failure | .metadata, .error failure
  | .replacementMetadata, .error (.other failure)
  | .createPrivateUploadStage, .error (.other failure) | .receiveUploadBody, .error (_, failure)
  | .applyReplacementMetadata, .error (.other failure)
  | .openNearestExistingParent, .error failure | .discardUnrecordedStage, .error failure
  | .rollbackUploadAncestors, .error failure | .reset, .error failure
  | .resetAndAncestors, .error failure | .persistInitialCheckpoint _, .error failure
  | .persistCheckpoint _, .error failure | .seek, .error failure | .setLen _, .error failure
  | .syncFile, .error failure | .flush, .error failure | .persistCommitStarted, .error failure
  | .removeEmptyUploadStageDirectory, .error failure
  | .persistAwaitingConfirmation, .error failure | .persistTerminal _, .error failure
  | .persistUnknown, .error failure => some failure
  | _, _ => none

/-- The answer says nothing about the deadline. -/
def UploadCall.timeless : UploadCall → Bool
  | .now _ | .track => false
  | _ => true

namespace Handler

/-- A property of handlers, for a deadline that has come or has not. A call has it if the rest has
    it for every answer that is `ok`, and so do the errors of such answers and the responses that
    are `fine`, as those beyond the boundary are. -/
structure Beyond (c : Config) (r : UploadRequest) (res : UploadResponse) (awaits : Bool)
    (ok : (call : UploadCall) → call.Answer → Prop) (fine : UploadResponse → Prop)
    (Good : Bool → Handler → Prop) : Prop where
  call {expired : Bool} {call : UploadCall} {next : call.Answer → Handler} :
    call.timeless = true → (∀ answer, ok call answer → Good expired (next answer)) →
    Good expired (.call call next)
  now {expired : Bool} {line : ℕ} {next : Bool → Handler} :
    Good true (next true) → Good false (next false) → Good expired (.call (.now line) next)
  fail {expired : Bool} {call : UploadCall} {answer : call.Answer} {failure : Failure} :
    ok call answer → call.failure answer = some failure → Good expired (fail res failure)
  failOther {expired : Bool} : Good expired (Handler.fail res .other)
  answer {expired : Bool} {response : UploadResponse} :
    fine response → Good expired (answer response)
  unknown : fine (unknown c res)
  unknownAt {offset : ℕ} : offset = r.initialOffset ∨ offset ≤ r.uploadLength →
    fine (Handler.unknown c { res with offset := some offset })
  unpublished {code : ErrorCode} :
    fine (problem c res .unknown (some r.uploadLength) (some r.uploadLength) 500 code)
  rejected {status : ℕ} {code : ErrorCode} : status ∈ [408, 409, 413, 500, 507] →
    fine (problem c res .rejected (some r.uploadLength) none status code)
  running {status : ℕ} {code : ErrorCode} : r.mode.isResume = true →
    status ∈ [408, 409, 413, 500, 507] →
    fine (problem c res .running (some r.uploadLength) (some r.initialOffset) status code)
  kept {offset status : ℕ} {code : ErrorCode} : offset ≤ r.uploadLength → status ∈ [408, 409] →
    fine (problem c { res with offset := some offset } .running (some r.uploadLength)
      (some offset) status code)
  cutBackProblem {status : ℕ} {code : ErrorCode} : status ∈ [408, 409, 413, 500, 507] →
    fine (cutBackProblem c r res status code)
  committed : fine ({ res with status := successStatus r.mode }.recordHeaders
    ⟨c.uploadId, .committed, some r.uploadLength, some r.uploadLength⟩)
  rivalled {code : ErrorCode} :
    fine (problem c res .awaitingConfirmation (some r.uploadLength) (some r.uploadLength) 409 code)
  awaiting {status : ℕ} {code : ErrorCode} : awaits = true → status ∈ [408, 409, 413, 500, 507] →
    fine (awaiting c r res status code)

namespace Beyond

variable {c : Config} {r : UploadRequest} {res : UploadResponse} {awaits expired : Bool}
  {ok : (call : UploadCall) → call.Answer → Prop} {fine : UploadResponse → Prop}
  {Good : Bool → Handler → Prop} {next : Handler} {call : UploadCall} {status : ℕ} {code : ErrorCode}
  {metadata : Option PreservedFileMetadata} (h : Beyond c r res awaits ok fine Good)
include h

/-- The operator `?` on an answer that is at hand. -/
theorem check {a : call.Answer} {result : Except Failure Unit} (hok : ok call a)
    (hr : ∀ fai, result = .error fai → call.failure a = some fai)
    (hn : Good expired next) : Good expired (Handler.check res result next) := by
  cases result with
  | error fai => exact h.fail hok (hr fai rfl)
  | ok _ => exact hn

/-- The operator `?` on a call. -/
theorem call_check {result : call.Answer → Except Failure Unit} (hc : call.timeless = true)
    (hr : ∀ a fail, result a = .error fail →
      call.failure a = some fail) (hn : Good expired next) :
    Good expired (.call call fun a => Handler.check res (result a) next) :=
  h.call hc fun a hok => h.check hok (hr a) hn

theorem reset (hn : Good expired next) :
    Good expired (.call .resetAndAncestors fun reset => Handler.check res reset next) :=
  h.call_check rfl (fun _ _ hf => hf ▸ rfl) hn

theorem cutBack (hn : Good expired next) : Good expired (cutBack r res next) :=
  h.call_check rfl (fun _ _ hf => hf ▸ rfl)
    (h.call_check rfl (fun _ _ hf => hf ▸ rfl) hn)

theorem finishTimedOutUpload : Good expired (finishTimedOutUpload c r res) := by
  -- A fresh upload is discarded and rolled back where a resumed one only returns.
  have hd (next : Handler) (hn : Good expired next) :
      Good expired (.call .discardUnrecordedStage fun discarded =>
        .call .resetAndAncestors fun reset =>
          Handler.check res reset (Handler.check res discarded next)) := by
    refine h.call rfl fun discarded hds => h.reset ?_
    exact h.check hds (fun _ hf => hf ▸ rfl) hn
  refine h.call rfl fun flushed hfl => ?_
  rcases flushed with fai | flushed
  · show Good expired (if r.mode.isResume then _ else _)
    split
    · exact h.fail hfl rfl
    · exact hd _ (h.fail hfl rfl)
  refine h.call rfl fun metadata hm => ?_
  rcases metadata with fai | size
  · show Good expired (if r.mode.isResume then _ else _)
    split
    · exact h.fail hm rfl
    · exact h.reset (h.fail hm rfl)
  show Good expired (if _ then _ else _)
  split
  · rename_i hc
    simp only [partialUploadIsCheckpointable, Bool.and_eq_true, decide_eq_true_eq] at hc
    split
    · refine h.call rfl fun pers hpd => ?_
      rcases pers with fai | pers
      · exact h.fail hpd rfl
      · exact h.answer (h.unknownAt (.inr hc.1.2))
    · refine h.call rfl fun pers hpd => ?_
      rcases pers with fai | pers
      · exact hd _ (h.fail hpd rfl)
      · exact h.answer (h.unknownAt (.inr hc.1.2))
  · split
    · show Good expired (if _ then _ else _)
      split
      · exact h.cutBack (h.answer (h.unknownAt (.inl rfl)))
      · exact h.answer (h.unknownAt (.inl rfl))
    · exact hd _ (h.answer h.unknown)

theorem targetConflict {st : UploadPublicState} {len off : Option ℕ}
    (hf : ∀ code, fine (problem c res st len off 409 code)) :
    Good expired (targetConflict c res st len off) := by
  refine h.call rfl fun fid hid => ?_
  rcases fid with fai | fid
  · exact h.fail hid rfl
  · exact h.answer (hf _)

theorem firstCheckpoint (hn : ∀ expired, Good expired next) :
    Good expired (firstCheckpoint c r res next) := by
  refine h.now h.finishTimedOutUpload (h.call rfl fun pers hpd => ?_)
  rcases pers with fai | pers
  · refine h.call rfl fun discarded hd => ?_
    refine h.call rfl fun reset hr => ?_
    refine h.call rfl fun rolledBack hb => ?_
    refine h.check hd (fun _ hf => hf ▸ rfl) ?_
    refine h.check hr (fun _ hf => hf ▸ rfl) ?_
    exact h.check hb (fun _ hf => hf ▸ rfl) (h.fail hpd rfl)
  · exact hn false

theorem rollBackOrUnknown (hs : status ∈ [408, 409, 413, 500, 507]) :
    Good expired (rollBackOrUnknown c r res status code) := by
  refine h.call rfl fun reset _ => ?_
  rcases reset with fail | reset
  · exact h.answer h.unknown
  · exact h.answer (h.rejected hs)

theorem finishPrecommitSpaceFailure : Good expired (finishPrecommitSpaceFailure c r res) := by
  unfold Handler.finishPrecommitSpaceFailure
  split
  · rename_i hrs
    refine h.call rfl fun cut _ => ?_
    rcases cut with fail | cut
    · exact h.answer (h.running hrs (by decide))
    · exact h.call rfl fun _ _ => h.answer (h.running hrs (by decide))
  · exact h.rollBackOrUnknown (by decide)

theorem finishPrecommitIoFailure : Good expired (finishPrecommitIoFailure c r res) := by
  unfold Handler.finishPrecommitIoFailure
  split
  · rename_i hrs
    exact h.answer (h.running hrs (by decide))
  · exact h.rollBackOrUnknown (by decide)

theorem commitReadyUpload : Good expired (commitReadyUpload c r res) := by
  refine h.call rfl fun out _ => ?_
  cases (out : ReplaceOutcome) with
  | published =>
    refine h.call rfl fun _ _ => h.call rfl fun pers _ => ?_
    rcases pers with fail | pers
    · exact h.answer h.unpublished
    · exact h.answer h.committed
  | rejected =>
    refine h.call rfl fun pers _ => ?_
    rcases pers with fail | pers
    · exact h.answer h.unknown
    · exact h.targetConflict fun _ => h.rivalled
  | notPublished moved => exact h.reset (h.call rfl fun _ _ => h.answer (h.rejected (by decide)))
  | publishedDurabilityUnknown =>
    exact h.call rfl fun _ _ => h.call rfl fun _ _ => h.answer h.unpublished

/-- A confirmation that has to be given again, or something else. -/
theorem awaitingOr (hs : status ∈ [408, 409, 413, 500, 507]) (hn : Good expired next) :
    Good expired (if awaits then Handler.answer (Handler.awaiting c r res status code)
      else next) := by
  split
  · rename_i ha
    exact h.answer (h.awaiting ha hs)
  · exact hn

theorem startCommit : Good expired (startCommit c r res awaits) := by
  refine h.call rfl fun avail _ => ?_
  cases avail with
  | false => exact h.awaitingOr (by decide) (h.rollBackOrUnknown (by decide))
  | true =>
    refine h.call rfl fun pers _ => ?_
    rcases pers with fail | pers
    · exact h.rollBackOrUnknown (by decide)
    refine h.call rfl fun avail _ => ?_
    cases avail with
    | false => exact h.rollBackOrUnknown (by decide)
    | true => exact h.commitReadyUpload

theorem replayMetadata : Good expired (replayMetadata c r res awaits metadata) := by
  cases metadata with
  | none => exact h.startCommit
  | some metadata =>
    refine h.call rfl fun applied ha => ?_
    rcases applied with (_ | fai) | applied
    · exact h.awaitingOr (by decide) (h.reset (h.answer (h.rejected (by decide))))
    · exact h.awaitingOr (by decide) (h.reset (h.fail ha rfl))
    · exact h.startCommit

theorem unlessLate {line : ℕ} (hn : ∀ expired, Good expired next) :
    Good expired (unlessLate c r res line awaits next) :=
  h.now (h.awaitingOr (by decide) h.finishTimedOutUpload) (hn false)

theorem checkLength {actualLength : ℕ} (hn : Good expired next) :
    Good expired (checkLength c r res awaits actualLength next) := by
  unfold Handler.checkLength
  split
  · exact hn
  refine h.awaitingOr (by decide) ?_
  split
  · rename_i hs
    exact h.call_check rfl (fun _ _ hf => hf ▸ rfl) (h.answer (h.kept (le_of_lt hs) (by decide)))
  · exact h.reset (h.answer (h.rejected (by decide)))

theorem prepareTransferredUpload :
    Good expired (prepareTransferredUpload c r res awaits metadata) := by
  refine h.call rfl fun flushed _ => ?_
  rcases flushed with fai | flushed
  · exact h.awaitingOr (by decide) h.finishPrecommitIoFailure
  refine h.call rfl fun avail _ => ?_
  cases avail with
  | false => exact h.awaitingOr (by decide) h.finishPrecommitSpaceFailure
  | true =>
    refine h.unlessLate fun expired => h.call rfl fun len hl => ?_
    rcases len with fai | actualLength
    · exact h.awaitingOr (by decide) (h.fail hl rfl)
    · exact h.unlessLate fun _ => h.checkLength (h.unlessLate fun _ => h.replayMetadata)

theorem settlePartial {size : ℕ} {next : Bool → Handler}
    (hk : size ≤ r.uploadLength → Good expired (next true))
    (hr : Good expired (next false)) :
    Good expired (settlePartial r res size next) := by
  unfold Handler.settlePartial
  split
  · rename_i hc
    simp only [partialUploadIsCheckpointable, Bool.and_eq_true, decide_eq_true_eq] at hc
    exact h.call_check rfl (fun _ _ hf => hf ▸ rfl) (hk hc.1.2)
  split
  · exact h.failOther
  · exact h.reset hr

theorem settleTransferError {fai : Failure} {size : ℕ} {err : UploadTransferError}
    (hf : Good expired (Handler.fail res fai)) :
    Good expired (settleTransferError c r res fai size err) := by
  cases err with
  | io =>
    simp only [Handler.settleTransferError]
    exact h.settlePartial (fun _ => hf) hf
  | idleTimeout =>
    simp only [Handler.settleTransferError]
    refine h.settlePartial (fun hs => ?_) ?_
    · exact h.answer (h.kept hs (by decide))
    · exact h.answer (h.rejected (by decide))
  | totalTimeout => exact h.failOther
  | excessBody =>
    show Good expired (if _ then _ else _)
    split
    · exact h.cutBack (h.answer (h.cutBackProblem (by decide)))
    · exact h.reset (h.answer (h.cutBackProblem (by decide)))
  | insufficientStorage =>
    refine h.cutBack ?_
    split
    · exact h.answer (h.cutBackProblem (by decide))
    · exact h.reset (h.answer (h.cutBackProblem (by decide)))

theorem transferUploadBody : Good expired (transferUploadBody c r res awaits metadata) := by
  refine h.call rfl fun received hr => ?_
  rcases received with ⟨err, fai⟩ | received
  · have hf : Good expired (Handler.fail res fai) := h.fail hr rfl
    show Good expired (if _ then _ else if _ then _ else _)
    split
    · rename_i ha
      cases err <;> exact h.answer (h.awaiting ha (by decide))
    split
    · exact h.finishTimedOutUpload
    refine h.call rfl fun len hl => ?_
    rcases len with metadataFailure | size
    · show Good expired (if _ then _ else _)
      split
      · exact h.fail hl rfl
      · exact h.settleTransferError hf
    · exact h.settleTransferError hf
  · exact h.prepareTransferredUpload

end Beyond

end Handler

end DufsRam.Upload
