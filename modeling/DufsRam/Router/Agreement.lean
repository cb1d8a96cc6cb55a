import DufsRam.Router.Operation
import DufsRam.Upload.Agreement

/-!
# The responses to uploads and the browser

Every response to a `PUT` or a `PATCH` that has got past its headers is read by the browser as the
state it declares, and every response of the handler of a query likewise, under the conditions of
`TrackedUpload.Plain`.

Results:
* `upload_responses_are_read`: the agreement.
* `unread_upload_responses`: a response that is not read, for each of the conditions on the request
  and on answers.
-/

namespace DufsRam.Router

open Upload StateStore

/-- The numbers of the request can be read by the browser. -/
structure UploadTarget.Representable (u : UploadTarget) : Prop where
  length : u.request.uploadLength ≤ maxSafeInteger
  offset : ∀ n, u.offset = some n → n ≤ u.request.uploadLength

theorem UploadTarget.Representable.request {u : UploadTarget} (h : u.Representable) :
    u.request.Representable := by
  refine ⟨h.length, fun n hn => h.offset n ?_⟩
  have hrs : u.request.mode.isResume = true := by
    cases hm : u.request.mode with
    | fresh =>
      rw [hm] at hn
      exact nomatch hn
    | resume off => rfl
  exact (u.offset_eq hrs).trans hn

/-- The browser reads the response to the request. -/
abbrev UploadTarget.Reads (u : UploadTarget) (response : UploadResponse) : Prop :=
  response.Reads u.request.mode.phase u.config.uploadId u.request.uploadLength

/-! ## Responses of the router -/

section

variable {u : UploadTarget} (hu : u.Representable)
include hu

/-- A problem over an empty response. -/
theorem reads_default {st : UploadPublicState} {off : Option ℕ} (sta : ℕ) {code : ErrorCode}
    (hs : st = .notStarted ∨ st = .unknown)
    (ho : ∀ n, off = some n → n ≤ u.request.uploadLength)
    (hf : sta ∈ uploadResponseStatusMatrix .fresh st)
    (hrs : sta ∈ uploadResponseStatusMatrix .resume st) (hc : sta ≠ 403)
    (hl : sta = 429 → st ≠ .unknown) :
    u.Reads (UploadResponse.default.problem
      ⟨u.config.uploadId, st, some u.request.uploadLength, off⟩ sta code) := by
  have ho' : ∀ n, off.or none = some n → n ≤ u.request.uploadLength := by
    rw [Option.or_none]
    exact ho
  refine Handler.reads_problem hu.request rfl ?_ (Handler.mem_matrix hf hrs) hc hl
  obtain rfl | rfl := hs
  · exact ⟨rfl, ho'⟩
  · refine ⟨?_, ho'⟩
    rintro n ⟨⟩
    rfl

theorem reads_rejection (rej : UploadRejection) : u.Reads (rej.render u) := by
  have ho : ∀ n, rej.offset u = some n → n ≤ u.request.uploadLength := by
    cases rej with
    | serverStopping => exact hu.offset
    | _ => exact hu.request.offset
  have hs : rej.problem.1 ∈ uploadResponseStatusMatrix .fresh .notStarted ∧
      rej.problem.1 ≠ 403 := by
    cases rej <;> decide
  exact reads_default hu _ (.inl rfl) ho hs.1 hs.1 hs.2 nofun

theorem reads_renderUploadError (prog : MutationProgress) (fail : Failure) :
    u.Reads (renderUploadError u prog fail) := by
  simp only [renderUploadError]
  split
  · have hs : ((if decide (fail = .timedOut) then 504 else 500) : ℕ) ∈
        uploadResponseStatusMatrix .fresh .unknown ∧
        ((if decide (fail = .timedOut) then 504 else 500) : ℕ) ≠ 403 ∧
        ((if decide (fail = .timedOut) then 504 else 500) : ℕ) ≠ 429 := by
      cases fail <;> decide
    exact reads_default hu _ (.inr rfl) hu.offset hs.1 hs.1 hs.2.1 fun h => absurd h hs.2.2
  · have hs : ((if decide (fail = .timedOut) then 408 else 503) : ℕ) ∈
        uploadResponseStatusMatrix .fresh .notStarted ∧
        ((if decide (fail = .timedOut) then 408 else 503) : ℕ) ≠ 403 := by
      cases fail <;> decide
    exact reads_default hu _ (.inl rfl) hu.offset hs.1 hs.1 hs.2 (by simp)

theorem reads_renderUploadTimeout (prog : MutationProgress) :
    u.Reads (renderUploadTimeout u prog).1 := by
  have hun : u.Reads (UploadResponse.default.problem ⟨u.config.uploadId, .unknown,
      some u.request.uploadLength, u.request.mode.offset⟩ 408 .uploadOutcomeUnknown) :=
    reads_default hu 408 (.inr rfl) hu.request.offset (by decide) (by decide) (by decide) nofun
  cases prog with
  | preflight =>
    exact reads_default hu 408 (.inl rfl) hu.request.offset (by decide) (by decide) (by decide) nofun
  | reserved | detachedCommit | cancelledBeforeUploadMutation => exact hun

end

/-! ## Runs -/

namespace TrackedUpload

variable {u : UploadTarget} {s s' : TrackedUpload}

/-- The answers to the task are as `UploadCall.plain` says, and marking a stage as active does not
    time out before the deadline. -/
def Plain (u : UploadTarget) (s : TrackedUpload) : TrackedEvent → Prop
  | .call answers => ∀ call next, s.task = some (.running (.call call next)) →
      call.plain u.request.uploadLength (answers call) ∧
        (call = .track → answers .track = .error .timedOut → s.expired = true)
  | _ => True

/-- What holds of a request and its task in every state. -/
structure Agreed (u : UploadTarget) (s : TrackedUpload) : Prop where
  running : ∀ handler, s.task = some (.running handler) → ∃ expired : Bool,
    (expired = true → s.expired = true) ∧ handler.Sound u.config u.request expired
  returned : ∀ handled, s.task = some (.returned handled) →
    agreementEnds u.request.mode.phase u.config.uploadId u.request.uploadLength false handled
  answered : ∀ response, s.wait = .answered response → u.Reads response

/-- The answers that do not come from outside are plain. -/
theorem plain_reply {ans : (call : UploadCall) → call.Answer} {call : UploadCall} {len : ℕ}
    (h : call.plain len (ans call)) : call.plain len (s.reply ans call).1 := by
  cases call with
  | now | beginUploadMutation | outcomeCanBeUnknown => exact ⟨nofun, trivial⟩
  | _ => exact h

namespace Agreed

theorem call (h : s.Agreed u) {ans : (call : UploadCall) → call.Answer} {call : UploadCall}
    {next : call.Answer → Handler} (hts : s.task = some (.running (.call call next)))
    (hp : call.plain u.request.uploadLength (ans call))
    (ht : call = .track → ans .track = .error .timedOut → s.expired = true) :
    (s.taskStep ans (.call call next)).Agreed u := by
  obtain ⟨ex, he, -, hs⟩ := h.running _ hts
  have ha : (agreement u.request.uploadLength).answers ex call (s.reply ans call).1 := by
    refine ⟨plain_reply hp, ?_⟩
    cases call with
    | now line => exact he
    | _ => exact trivial
  refine ⟨?_, fun han ht' => (nomatch ht'), h.answered⟩
  rintro hd ⟨⟩
  refine ⟨_, ?_, hs _ ha⟩
  cases call with
  | now line => exact id
  | track =>
    show (agreement u.request.uploadLength).next ex .track (ans .track) = true → _
    have hl := ht rfl
    generalize ans .track = answer at hl
    rcases answer with (_ | _ | _ | _) | _
    · exact he
    · exact he
    · exact fun _ => hl rfl
    · exact he
    · exact he
  | _ => exact he

theorem taskStep (h : s.Agreed u) {ans : (call : UploadCall) → call.Answer} {hd : Handler}
    (ht : s.task = some (.running hd)) (hp : s.Plain u (.call ans)) :
    (s.taskStep ans hd).Agreed u := by
  cases hd with
  | done ha =>
    obtain ⟨ex, -, he⟩ := h.running _ ht
    refine ⟨fun hd ht' => (nomatch ht'), ?_, h.answered⟩
    rintro ha' ⟨⟩
    exact he
  | call call next =>
    obtain ⟨hc, htr⟩ := hp call next ht
    exact h.call ht hc htr

theorem answer (h : s.Agreed u) {resp : UploadResponse} (hr : u.Reads resp) :
    Agreed u { s with wait := .answered resp } where
  running := h.running
  returned := h.returned
  answered := by
    rintro resp' ⟨⟩
    exact hr

theorem join (h : s.Agreed u) (hu : u.Representable) {task : UploadTask} {response : UploadResponse}
    (ht : s.task = some task) (hj : s.joined u task = some response) : u.Reads response := by
  cases task with
  | running hd => exact nomatch hj
  | returned ha =>
    have he := h.returned ha ht
    obtain ⟨rendered, fail | r⟩ := ha
    · obtain ⟨⟩ := hj
      exact reads_renderUploadError hu s.progress fail
    · obtain ⟨⟩ := hj
      exact he
  | panicked =>
    obtain ⟨⟩ := hj
    exact reads_renderUploadError hu s.progress .other

theorem initial : Agreed u ⟨.dispatching, none, .preflight, false, []⟩ where
  running _ ht := nomatch ht
  returned _ ht := nomatch ht
  answered _ hw := nomatch hw

theorem spawn {h : Handler} (hs : h.Sound u.config u.request false) :
    Agreed u { s with wait := .awaiting, task := some (.running h) } where
  running := by
    rintro ha' ⟨⟩
    exact ⟨false, nofun, hs⟩
  returned _ ht := nomatch ht
  answered _ hw := nomatch hw

theorem step (h : s.Agreed u) (hu : u.Representable) {e : TrackedEvent} (hp : s.Plain u e)
    (hs : StepCase u s e s') : s'.Agreed u := by
  cases hs with
  | expire =>
    refine ⟨fun hd ht => ?_, h.returned, h.answered⟩
    obtain ⟨ex, -, hsn⟩ := h.running hd ht
    exact ⟨ex, fun _ => rfl, hsn⟩
  | reject rej => exact h.answer (reads_rejection hu rej)
  | fail fai => exact h.answer (reads_renderUploadError hu s.progress fai)
  | spawn => exact Agreed.spawn (Handler.handleUpload_sound hu.request)
  | call ht => exact h.taskStep ht hp
  | panic => exact ⟨fun _ ht => (by cases ht), fun _ ht => (by cases ht), h.answered⟩
  | join ht hj => exact h.answer (h.join hu ht hj)
  | timeout =>
    exact ⟨h.running, h.returned, (h.answer (reads_renderUploadTimeout hu s.progress)).answered⟩
  | disconnect => exact ⟨h.running, h.returned, fun _ hw => by cases hw⟩

theorem of_reachable (hu : u.Representable) (h : (uploadMachine u).Reachable (Plain u) s) :
    s.Agreed u :=
  h.invariant initial fun _ _ _ _ ih hp hs => ih.step hu hp (step_cases hs)

end Agreed

end TrackedUpload

/-- Every response to a `PUT` or a `PATCH` is read by the browser as the state it declares, in every
    run with plain answers, and so is every response to a query of the same length. -/
theorem upload_responses_are_read :
    (∀ u : UploadTarget, u.Representable → ∀ s, (uploadMachine u).Reachable (TrackedUpload.Plain u) s →
      ∀ response, s.wait = .answered response → u.Reads response) ∧
    ∀ (c : Config) (length : ℕ), length ≤ maxSafeInteger → ∀ (admitted : Bool) (handled : Handled),
      (Handler.dispatchUploadStatus c .default admitted).Returns (UploadCall.plain length) handled →
      handled.result = .ok () → handled.response.Reads .checkpoint c.uploadId length := by
  constructor
  · intro u hu s hs response hr
    exact (TrackedUpload.Agreed.of_reachable hu hs).answered response hr
  · intro c length hsf admitted handled hrt hok
    exact Handler.dispatchUploadStatus_reads hsf hrt hok

/-- What the browser makes of the response, once there is one. -/
def TrackedUpload.kind (u : UploadTarget) (s : TrackedUpload) : Option UploadKind :=
  match s.wait with
  | .answered response =>
    some (classifyUploadResponse u.request.mode.phase false response u.config.uploadId
      u.request.uploadLength).kind
  | _ => none

/-- A new upload of ten bytes. -/
def freshTarget : UploadTarget where
  config := exampleConfig
  request := ⟨1, .fresh, 10, .noReplace, none⟩
  offset := none
  offset_eq := nofun

/-- A length that is no number of the browser. -/
def hugeTarget : UploadTarget :=
  { freshTarget with request.uploadLength := maxSafeInteger + 1 }

/-- A `PATCH` at an offset beyond the length. -/
def beyondTarget : UploadTarget where
  config := exampleConfig
  request := ⟨1, .resume 11, 10, .noReplace, none⟩
  offset := some 11
  offset_eq _ := rfl

/-- The answers of `resumedAnswers`, but for `lookup` and for one more call. -/
def answersWith (found : UploadRecordLookup) (failing : (call : UploadCall) → Option call.Answer)
    (call : UploadCall) : call.Answer :=
  match call with
  | .lookup => .ok found
  | call => (failing call).getD (resumedAnswers call)

/-- What the browser makes of the response to a request whose calls are answered in one way. -/
def kindAfter (u : UploadTarget) (calls : ℕ) (answers : (call : UploadCall) → call.Answer) :
    Option UploadKind :=
  ((uploadMachine u).run (.spawn :: List.replicate calls (.call answers) ++ [.join])).bind
    (TrackedUpload.kind u)

/-- What it makes of the response to a request that is not admitted. -/
def kindRejected (u : UploadTarget) : Option UploadKind :=
  ((uploadMachine u).run [.reject .concurrencyLimit]).bind (TrackedUpload.kind u)

/-- Responses that the browser cannot read. The length of the request, or its offset, is rendered
    although the browser does not take it. The session of a resumed upload has another length than
    the request, and the response has the length of the session. The stage of a new upload is there
    already, and the response is 409 with `not-seen` and a length (`upload/prepare.rs`, lines
    653-668). The first checkpoint conflicts with a session, and the response is 409 with `unknown`
    (`upload.rs`, lines 239-244). Marking the stage as active fails with `TimedOut` before the
    deadline, and the response has no state (`upload/prepare.rs`, lines 676-696). -/
theorem unread_upload_responses :
    kindRejected hugeTarget = some .invalid ∧ kindRejected beyondTarget = some .invalid ∧
    kindAfter resumedTarget 8 (answersWith (.found ⟨20, 5, .running, none⟩) fun _ => none) =
      some .invalid ∧
    kindAfter freshTarget 11 (answersWith .notSeen fun
      | .createPrivateUploadStage => some (.error .alreadyExists)
      | _ => none) = some .invalid ∧
    kindAfter freshTarget 18 (answersWith .notSeen fun
      | .persistInitialCheckpoint _ => some (.error .conflict)
      | _ => none) = some .invalid ∧
    kindAfter freshTarget 15 (answersWith .notSeen fun
      | .track => some (.error .timedOut)
      | _ => none) = some .invalid := by
  decide

end DufsRam.Router
