import DufsRam.Lib.Machine
import DufsRam.Router.Progress
import DufsRam.Upload.Boundary

/-!
# Upload requests and their tasks

Model of an upload request from the router to its response: the rejections before the upload task
(`router/files.rs`), the task that runs on its own (`run_tracked_upload`, `server.rs`, lines
792-826), the wait for it until the deadline (`await_tracked_upload_task`, lines 828-878), and what
the router makes of an error (`router.rs`, lines 295-353).

The task makes its calls one by one, while the deadline comes, the request times out, the client
disconnects or the task panics. The answers to its calls are arbitrary, except for those about the
clock and the mutation progress. The calls that change something are recorded.

Results:
* `TrackedUpload.Bounded.of_reachable`: as long as no second look at the clock finds a deadline
  that the first one has missed, the task changes something only when the progress says so, and
  nothing at all if the response is `not-started`.
-/

namespace DufsRam.Router

open Upload

/-! ## Responses -/

/-- A `PUT` or `PATCH` that got past its headers. `offset` is the offset header as
    `UploadRequestContext` has it (`router/request.rs`, lines 59-72): a fresh upload ignores it
    otherwise. -/
structure UploadTarget where
  config : Config
  request : UploadRequest
  offset : Option ℕ
  offset_eq : request.mode.isResume = true → offset = request.mode.offset

/-- Why a request is refused before its task starts: by `router.rs`, lines 121-135, and by
    `render_upload_rejection` (`router/files.rs`, lines 333-340, 531-551, 576-585, 655-663, 687-694
    and 812-839). -/
inductive UploadRejection where
  | serverStopping
  | targetNotFound
  | pathWaitLimit
  | pathWaitTimeout
  | concurrencyLimit
  | inspectionTimeout
  | stateConflict
  | stateUnavailable
  | stateTimeout
deriving DecidableEq

namespace UploadRejection

/-- The status and the code. -/
def problem : UploadRejection → ℕ × ErrorCode
  | .serverStopping => (503, .serverStopping)
  | .targetNotFound => (404, .uploadTargetNotFound)
  | .pathWaitLimit => (429, .pathWaitConcurrencyLimit)
  | .pathWaitTimeout => (408, .uploadPathWaitTimeout)
  | .concurrencyLimit => (429, .uploadConcurrencyLimit)
  | .inspectionTimeout => (408, .uploadTargetInspectionTimeout)
  | .stateConflict => (409, .uploadStateConflict)
  | .stateUnavailable => (503, .uploadStateUnavailable)
  | .stateTimeout => (408, .requestTimeout)

/-- The router renders the offset header; the route renders the offset of the mode. -/
def offset (u : UploadTarget) : UploadRejection → Option ℕ
  | .serverStopping => u.offset
  | _ => u.request.mode.offset

/-- The response. -/
def render (u : UploadTarget) (rejection : UploadRejection) : UploadResponse :=
  UploadResponse.default.problem
    ⟨u.config.uploadId, .notStarted, some u.request.uploadLength, rejection.offset u⟩
    rejection.problem.1 rejection.problem.2

end UploadRejection

/-- The response to an error (`router.rs`, lines 311-353). `AppError` has the status
    `GATEWAY_TIMEOUT` for an I/O error `TimedOut` (`app_error.rs`, lines 41-49). -/
def renderUploadError (u : UploadTarget) (progress : MutationProgress) (failure : Failure) :
    UploadResponse :=
  let context (state : UploadPublicState) : UploadErrorContext :=
    ⟨u.config.uploadId, state, some u.request.uploadLength, u.offset⟩
  let timedOut := decide (failure = .timedOut)
  if progress.outcomeCanBeUnknown then
    UploadResponse.default.problem (context .unknown) (if timedOut then 504 else 500)
      .uploadResultUnknown
  else
    UploadResponse.default.problem (context .notStarted) (if timedOut then 408 else 503)
      (if timedOut then .requestTimeout else .uploadPrecommitFailed)

/-- The response at the deadline (`server.rs`, lines 838-876), and the progress after it. -/
def renderUploadTimeout (u : UploadTarget) (progress : MutationProgress) :
    UploadResponse × MutationProgress :=
  let context (state : UploadPublicState) : UploadErrorContext :=
    ⟨u.config.uploadId, state, some u.request.uploadLength, u.request.mode.offset⟩
  match progress.cancelUploadBeforeMutation with
  | (true, progress) =>
    (UploadResponse.default.problem (context .notStarted) 408 .requestTimeout, progress)
  | (false, progress) =>
    (UploadResponse.default.problem (context .unknown) 408 .uploadOutcomeUnknown, progress)

/-! ## The system -/

/-- The upload task. -/
inductive UploadTask where
  | running (handler : Handler)
  | returned (handled : Handled)
  | panicked

/-- The future of the request. -/
inductive UploadWait where
  /-- Before `run_tracked_upload`. -/
  | dispatching
  /-- In `await_tracked_upload_task`. -/
  | awaiting
  | answered (response : UploadResponse)
  /-- The client is gone. -/
  | dropped

/-- A request, its task, and what they share. `mutations` is history. -/
structure TrackedUpload where
  wait : UploadWait
  task : Option UploadTask
  progress : MutationProgress
  expired : Bool
  mutations : List UploadCall

inductive TrackedEvent where
  /-- The deadline comes. -/
  | expire
  | reject (rejection : UploadRejection)
  /-- An error before the task starts. -/
  | fail (failure : Failure)
  | spawn
  /-- The task makes its next call, or returns. -/
  | call (answers : (call : UploadCall) → call.Answer)
  | panic
  | join
  | timeout
  | disconnect

namespace TrackedUpload

variable (s : TrackedUpload)

/-- The answer to a call of the task, and the progress after it. -/
def reply (answers : (call : UploadCall) → call.Answer) :
    (call : UploadCall) → call.Answer × MutationProgress
  | .now _ => (s.expired, s.progress)
  | .beginUploadMutation => s.progress.beginUploadMutation
  | .outcomeCanBeUnknown => (s.progress.outcomeCanBeUnknown, s.progress)
  | call => (answers call, s.progress)

/-- A step of the task. -/
def taskStep (answers : (call : UploadCall) → call.Answer) : Handler → TrackedUpload
  | .done handled => { s with task := some (.returned handled) }
  | .call call next =>
    { s with
      task := some (.running (next (s.reply answers call).1))
      progress := (s.reply answers call).2
      mutations := if call.mutates then s.mutations ++ [call] else s.mutations }

/-- What the request answers when the task is over. -/
def joined (u : UploadTarget) : UploadTask → Option UploadResponse
  | .running _ => none
  | .returned ⟨response, .ok _⟩ => some response
  | .returned ⟨_, .error failure⟩ => some (renderUploadError u s.progress failure)
  | .panicked => some (renderUploadError u s.progress .other)

def step (u : UploadTarget) : TrackedEvent → Option TrackedUpload
  | .expire => some { s with expired := true }
  | .reject rejection =>
    match s.wait with
    | .dispatching => some { s with wait := .answered (rejection.render u) }
    | _ => none
  | .fail failure =>
    match s.wait with
    | .dispatching => some { s with wait := .answered (renderUploadError u s.progress failure) }
    | _ => none
  | .spawn =>
    match s.wait with
    | .dispatching =>
      some { s with
        wait := .awaiting
        task := some (.running (Handler.handleUpload u.config u.request .default)) }
    | _ => none
  | .call answers =>
    match s.task with
    | some (.running handler) => some (s.taskStep answers handler)
    | _ => none
  | .panic =>
    match s.task with
    | some (.running _) => some { s with task := some .panicked }
    | _ => none
  | .join =>
    match s.wait, s.task with
    | .awaiting, some task =>
      (s.joined u task).map fun response => { s with wait := .answered response }
    | _, _ => none
  | .timeout =>
    match s.wait with
    | .awaiting =>
      if s.expired then
        some { s with
          wait := .answered (renderUploadTimeout u s.progress).1
          progress := (renderUploadTimeout u s.progress).2 }
      else none
    | _ => none
  | .disconnect =>
    match s.wait with
    | .dispatching | .awaiting => some { s with wait := .dropped }
    | _ => none

end TrackedUpload

/-- The life of an upload request. -/
def uploadMachine (u : UploadTarget) : Machine TrackedUpload TrackedEvent where
  init := ⟨.dispatching, none, .preflight, false, []⟩
  step s e := s.step u e

/-! ## The boundary -/

namespace TrackedUpload

variable {u : UploadTarget} {s s' : TrackedUpload}

/-- What an event does. -/
inductive StepCase (u : UploadTarget) (s : TrackedUpload) : TrackedEvent → TrackedUpload → Prop
  | expire : StepCase u s .expire { s with expired := true }
  | reject (rejection : UploadRejection) : s.wait = .dispatching →
      StepCase u s (.reject rejection) { s with wait := .answered (rejection.render u) }
  | fail (failure : Failure) : s.wait = .dispatching → StepCase u s (.fail failure)
      { s with wait := .answered (renderUploadError u s.progress failure) }
  | spawn : s.wait = .dispatching → StepCase u s .spawn { s with
      wait := .awaiting
      task := some (.running (Handler.handleUpload u.config u.request .default)) }
  | call {answers : (call : UploadCall) → call.Answer} {handler : Handler} :
      s.task = some (.running handler) → StepCase u s (.call answers) (s.taskStep answers handler)
  | panic {handler : Handler} : s.task = some (.running handler) →
      StepCase u s .panic { s with task := some .panicked }
  | join {task : UploadTask} {response : UploadResponse} : s.task = some task →
      s.joined u task = some response → StepCase u s .join { s with wait := .answered response }
  | timeout : StepCase u s .timeout { s with
      wait := .answered (renderUploadTimeout u s.progress).1
      progress := (renderUploadTimeout u s.progress).2 }
  | disconnect : StepCase u s .disconnect { s with wait := .dropped }

theorem step_cases {e : TrackedEvent} (h : s.step u e = some s') : StepCase u s e s' := by
  unfold step at h
  cases e with
  | expire =>
    cases h
    exact .expire
  | reject | fail | spawn | call | panic =>
    dsimp only at h
    split at h
    · next hw =>
      cases h
      constructor
      exact hw
    · cases h
  | join =>
    dsimp only at h
    split at h
    · next ht =>
      obtain ⟨resp, hj, rfl⟩ := Option.map_eq_some_iff.mp h
      exact .join ht hj
    · cases h
  | timeout =>
    dsimp only at h
    split at h
    · split_ifs at h
      cases h
      exact .timeout
    · cases h
  | disconnect =>
    dsimp only at h
    split at h
    · cases h
      exact .disconnect
    · cases h
      exact .disconnect
    · cases h

/-- The next call of the task is a second look at the clock. -/
def looksAgain (s : TrackedUpload) : Bool :=
  match s.task with
  | some (.running (.call call _)) => call.looksAgain
  | _ => false

/-- A second look at the clock that finds the deadline expired belongs to a task that has begun to
    mutate. -/
def LooksInTime (s : TrackedUpload) : TrackedEvent → Prop
  | .call _ => s.looksAgain = true → s.expired = true → s.progress = .detachedCommit
  | _ => True

/-- The task has begun to mutate. -/
def began (s : TrackedUpload) : Bool := s.progress.outcomeCanBeUnknown

/-- The task will not begin any more. -/
def Closed (s : TrackedUpload) : Prop :=
  s.progress = .cancelledBeforeUploadMutation ∨ ∀ handler, s.task ≠ some (.running handler)

/-- What holds of a request and its task in every state. -/
structure Bounded (s : TrackedUpload) : Prop where
  dispatching : s.wait = .dispatching → s.task = none ∧ s.progress = .preflight
  running : ∀ handler, s.task = some (.running handler) → handler.Keeps s.began
  returned : ∀ handled, s.task = some (.returned handled) → boundaryEnds s.began handled
  recorded : s.mutations ≠ [] → s.began = true
  definite : ∀ response, s.wait = .answered response → response.state = some .notStarted →
    s.began = false ∧ s.Closed

/-- The answers to the task are possible ones. -/
theorem boundary_answers {ans : (call : UploadCall) → call.Answer} {call : UploadCall}
    (hl : call.looksAgain = true → s.expired = true → s.progress = .detachedCommit) :
    boundary.answers s.began call (s.reply ans call).1 := by
  cases call with
  | now line =>
    intro ha he
    exact decide_eq_true (hl ha he)
  | beginUploadMutation =>
    intro hb
    have hp : s.progress = .detachedCommit := of_decide_eq_true hb
    show s.progress.beginUploadMutation.1 = true
    rw [hp]
    rfl
  | outcomeCanBeUnknown => exact rfl
  | _ => exact trivial

/-- The progress follows the answers. -/
theorem reply_progress {ans : (call : UploadCall) → call.Answer} {call : UploadCall} :
    (s.reply ans call).2.outcomeCanBeUnknown =
      boundary.next s.began call (s.reply ans call).1 := by
  cases call with
  | beginUploadMutation =>
    show s.progress.beginUploadMutation.2.outcomeCanBeUnknown = s.progress.beginUploadMutation.1
    cases s.progress <;> rfl
  | _ => rfl

theorem reply_cancelled {ans : (call : UploadCall) → call.Answer} {call : UploadCall}
    (h : s.progress = .cancelledBeforeUploadMutation) :
    (s.reply ans call).2 = .cancelledBeforeUploadMutation := by
  cases call with
  | beginUploadMutation =>
    show s.progress.beginUploadMutation.2 = _
    rw [h]
    rfl
  | _ => exact h

namespace Bounded

/-- A call of the task. -/
theorem call (h : s.Bounded) {ans : (call : UploadCall) → call.Answer} {call : UploadCall}
    {next : call.Answer → Handler} (ht : s.task = some (.running (.call call next)))
    (hl : call.looksAgain = true → s.expired = true → s.progress = .detachedCommit) :
    (s.taskStep ans (.call call next)).Bounded := by
  obtain ⟨hal, hk⟩ := h.running _ ht
  have hbg : (s.taskStep ans (.call call next)).began =
      boundary.next s.began call (s.reply ans call).1 := reply_progress
  have hs (hb : s.began = true) : (s.taskStep ans (.call call next)).began = true := by
    have ha : boundary.answers s.began call (s.reply ans call).1 := boundary_answers hl
    rw [hbg]
    rw [hb] at ha ⊢
    cases call with
    | beginUploadMutation => exact ha rfl
    | _ => rfl
  constructor
  · intro hw
    rw [(h.dispatching hw).1] at ht
    exact nomatch ht
  · rintro hd ⟨⟩
    rw [hbg]
    exact hk _ (boundary_answers hl)
  · rintro han ⟨⟩
  · intro hmt
    refine hs ?_
    by_cases hm : call.mutates = true
    · exact hal hm
    · have hsm : (s.taskStep ans (.call call next)).mutations = s.mutations := if_neg hm
      exact h.recorded (hsm ▸ hmt)
  · intro resp hw hst
    obtain ⟨hbf, hc | hn⟩ := h.definite resp hw hst
    · have hcn : (s.taskStep ans (.call call next)).progress =
          .cancelledBeforeUploadMutation := reply_cancelled hc
      exact ⟨by rw [began, hcn]; rfl, .inl hcn⟩
    · exact absurd ht (hn _)

/-- A step of the task. -/
theorem taskStep (h : s.Bounded) {ans : (call : UploadCall) → call.Answer} {hd : Handler}
    (ht : s.task = some (.running hd)) (hl : s.LooksInTime (.call ans)) :
    (s.taskStep ans hd).Bounded := by
  cases hd with
  | done ha =>
    have he : boundaryEnds s.began ha := h.running _ ht
    constructor
    · intro hw
      rw [(h.dispatching hw).1] at ht
      exact nomatch ht
    · rintro hd ⟨⟩
    · rintro ha' ⟨⟩
      exact he
    · exact h.recorded
    · intro resp hw hs
      exact ⟨(h.definite resp hw hs).1, .inr nofun⟩
  | call call next =>
    refine h.call ht fun hag => hl ?_
    rw [looksAgain, ht]
    exact hag

/-- The request is answered while the task is not running. -/
theorem answered (h : s.Bounded) {resp : UploadResponse} (ht : ∀ hd, s.task ≠ some (.running hd))
    (hr : resp.state = some .notStarted → s.began = false) :
    Bounded { s with wait := .answered resp } where
  dispatching := nofun
  running := h.running
  returned := h.returned
  recorded := h.recorded
  definite := by
    rintro resp' ⟨⟩ hs
    exact ⟨hr hs, .inr ht⟩

end Bounded

theorem renderUploadError_state {prog : MutationProgress} {fail : Failure}
    (h : (renderUploadError u prog fail).state = some .notStarted) :
    prog.outcomeCanBeUnknown = false := by
  simp only [renderUploadError] at h
  split at h
  · exact nomatch h
  · rename_i hp
    exact eq_false_of_ne_true hp

namespace Bounded

/-- The task is over and the request answers. -/
theorem join (h : s.Bounded) {task : UploadTask} {resp : UploadResponse}
    (ht : s.task = some task) (hj : s.joined u task = some resp) :
    Bounded { s with wait := .answered resp } := by
  cases task with
  | running hd => exact nomatch hj
  | returned ha =>
    refine h.answered (by rw [ht]; nofun) fun hs => ?_
    obtain ⟨rendered, fail | r⟩ := ha
    · obtain ⟨⟩ := hj
      exact renderUploadError_state hs
    · obtain ⟨⟩ := hj
      exact h.returned _ ht rfl hs
  | panicked =>
    refine h.answered (by rw [ht]; nofun) fun hs => ?_
    obtain ⟨⟩ := hj
    exact renderUploadError_state hs

/-- The request answers at the deadline. If it answers `not-started`, it has closed the boundary. -/
theorem timeout (h : s.Bounded) : Bounded { s with
      wait := .answered (renderUploadTimeout u s.progress).1
      progress := (renderUploadTimeout u s.progress).2 } := by
  have hb : (renderUploadTimeout u s.progress).2.outcomeCanBeUnknown = s.began := by
    unfold began renderUploadTimeout
    cases s.progress <;> rfl
  constructor
  · exact nofun
  · intro hd ht
    show hd.Keeps (renderUploadTimeout u s.progress).2.outcomeCanBeUnknown
    rw [hb]
    exact h.running hd ht
  · intro ha ht
    show boundaryEnds (renderUploadTimeout u s.progress).2.outcomeCanBeUnknown ha
    rw [hb]
    exact h.returned ha ht
  · intro hm
    exact hb.trans (h.recorded hm)
  · rintro resp ⟨⟩ hs
    have hc : (renderUploadTimeout u s.progress).2 = .cancelledBeforeUploadMutation := by
      revert hs
      cases s.progress with
      | preflight => exact fun _ => rfl
      | reserved | detachedCommit | cancelledBeforeUploadMutation => exact nofun
    exact ⟨by show MutationProgress.outcomeCanBeUnknown _ = false; rw [hc]; rfl, .inl hc⟩

theorem initial : Bounded ⟨.dispatching, none, .preflight, false, []⟩ where
  dispatching _ := ⟨rfl, rfl⟩
  running _ ht := nomatch ht
  returned _ ht := nomatch ht
  recorded hm := absurd rfl hm
  definite _ hw _ := nomatch hw

theorem spawn (h : s.Bounded) {hd : Handler} (hk : hd.Keeps s.began) :
    Bounded { s with wait := .awaiting, task := some (.running hd) } where
  dispatching := nofun
  running := by
    rintro ha' ⟨⟩
    exact hk
  returned _ ht := nomatch ht
  recorded := h.recorded
  definite _ hw _ := nomatch hw

theorem panic (h : s.Bounded) {hd : Handler} (ht : s.task = some (.running hd)) :
    Bounded { s with task := some .panicked } where
  dispatching hw := by
    rw [(h.dispatching hw).1] at ht
    exact nomatch ht
  running _ ht := nomatch ht
  returned _ ht := nomatch ht
  recorded := h.recorded
  definite response hw hs := ⟨(h.definite response hw hs).1, .inr nofun⟩

theorem disconnect (h : s.Bounded) : Bounded { s with wait := .dropped } where
  dispatching := nofun
  running := h.running
  returned := h.returned
  recorded := h.recorded
  definite _ hw _ := nomatch hw

theorem step (h : s.Bounded) {e : TrackedEvent} (hl : s.LooksInTime e) (hs : StepCase u s e s') :
    s'.Bounded := by
  have hi (hw : s.wait = .dispatching) (hd : Handler) : s.task ≠ some (.running hd) := by
    rw [(h.dispatching hw).1]
    exact nofun
  have hb (hw : s.wait = .dispatching) : s.began = false := by
    rw [began, (h.dispatching hw).2]
    rfl
  cases hs with
  | expire => exact { h with }
  | reject rej hw => exact h.answered (hi hw) fun _ => hb hw
  | fail fai hw => exact h.answered (hi hw) renderUploadError_state
  | spawn hw => exact h.spawn (hb hw ▸ Handler.handleUpload_keeps u.config u.request)
  | call ht => exact h.taskStep ht hl
  | panic ht => exact h.panic ht
  | join ht hj => exact h.join ht hj
  | timeout => exact h.timeout
  | disconnect => exact h.disconnect

theorem of_reachable (h : (uploadMachine u).Reachable LooksInTime s) : s.Bounded :=
  h.invariant initial fun _ _ _ _ ih hl hs => ih.step hl (step_cases hs)

end Bounded

end TrackedUpload

end DufsRam.Router
