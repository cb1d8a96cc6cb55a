import DufsRam.Router.Upload

/-!
# Tracked operations, and answers that promise no effect

Model of a tracked `DELETE`, `mkdir`, move or rename request: its handler up to
`run_operation_commit` (`server.rs`, lines 647-657 and 692-722), the commit task, and the responses
of the router (`router.rs`, lines 196-310 and 485-522). The handler and the router are one task, so
a timeout drops the handler between two polls; the commit task runs on its own.

Results:
* `TrackedOperation.Definite.of_reachable`: the commit of an operation that the router has rejected
  is never spawned.
* `definite_answers_are_true`: the same, and that an upload answered with `not-started` changes
  nothing, as long as no second look at the clock finds a deadline that the first one has missed.
-/

namespace DufsRam.Router

open Upload

/-- `OperationPublicState` (`protocol.rs`, lines 5-11). -/
inductive OperationPublicState where
  | running
  | succeeded
  | failed
  | rejected
  | unknown
deriving DecidableEq

/-- The handler of an operation. -/
inductive OperationHandler where
  /-- Before `run_operation_commit`. -/
  | preflight
  /-- In `acquire_owned`. -/
  | admission
  /-- Waiting for the commit task. -/
  | joining
  /-- With the result of the commit. -/
  | finishing
  /-- Returned or dropped. -/
  | over
deriving DecidableEq

/-- The commit task. -/
inductive CommitTask where
  | spawned
  | running
  | finished (ok : Bool)
deriving DecidableEq

/-- The state of an operation that a response has, and who wrote it. -/
inductive OperationAnswer where
  | handler (state : OperationPublicState)
  | router (state : OperationPublicState)
deriving DecidableEq

/-- An operation. -/
structure TrackedOperation where
  handler : OperationHandler
  commit : Option CommitTask
  progress : MutationProgress
  answer : Option OperationAnswer
deriving DecidableEq

/-- The state of a failure in the router: `apply_operation_timeout` (`router.rs`, lines 485-508) and
    the error of a handler (lines 298-310). -/
def failureState (progress : MutationProgress) : OperationPublicState :=
  if progress.outcomeCanBeUnknown then .unknown else .rejected

/-- The state of a response that the handler has returned: its own one, or else one from the router
    (lines 271-282). -/
def answerState (progress : MutationProgress) (state : Option OperationPublicState)
    (success : Bool) : OperationAnswer :=
  match state with
  | some state => .handler state
  | none => .router (if success then .succeeded else failureState progress)

inductive OperationEvent where
  /-- `begin` has answered `Started`. -/
  | reserve
  | requestCommit
  /-- A permit: the progress is marked and the commit spawned before the next `await`. -/
  | grant
  | run
  | finish (ok : Bool)
  | join
  /-- `Ok` with a response. -/
  | respond (state : Option OperationPublicState) (success : Bool)
  /-- `Err`, also from the closed admission. -/
  | fail
  | timeout
  | disconnect
deriving DecidableEq

namespace TrackedOperation

variable (s : TrackedOperation)

/-- The handler is over and the router answers. -/
def close (answer : OperationAnswer) : TrackedOperation :=
  { s with handler := .over, answer := some answer }

def step : OperationEvent → Option TrackedOperation
  | .reserve =>
    if s.handler = .preflight then some { s with progress := s.progress.markReserved } else none
  | .requestCommit =>
    if s.handler = .preflight then some { s with handler := .admission } else none
  | .grant =>
    if s.handler = .admission then
      some { s with
        handler := .joining
        progress := s.progress.markDetachedCommit
        commit := some .spawned }
    else none
  | .run => if s.commit = some .spawned then some { s with commit := some .running } else none
  | .finish ok =>
    if s.commit = some .running then some { s with commit := some (.finished ok) } else none
  | .join =>
    match s.handler, s.commit with
    | .joining, some (.finished true) => some { s with handler := .finishing }
    | .joining, some (.finished false) => some (s.close (.router (failureState s.progress)))
    | _, _ => none
  | .respond state success =>
    if s.handler = .preflight ∨ s.handler = .finishing then
      some (s.close (answerState s.progress state success))
    else none
  | .fail =>
    if s.handler = .preflight ∨ s.handler = .admission ∨ s.handler = .finishing then
      some (s.close (.router (failureState s.progress)))
    else none
  | .timeout =>
    if s.handler = .over then none else some (s.close (.router (failureState s.progress)))
  | .disconnect => if s.handler = .over then none else some { s with handler := .over }

end TrackedOperation

/-- The life of an operation. -/
def operationMachine : Machine TrackedOperation OperationEvent where
  init := ⟨.preflight, none, .preflight, none⟩
  step s e := s.step e

/-! ## The commit -/

namespace TrackedOperation

variable {s s' : TrackedOperation}

/-- The commit is there exactly when the progress says so, and not when the router has rejected the
    operation. -/
structure Definite (s : TrackedOperation) : Prop where
  detached : s.commit.isSome = true ↔ s.progress = .detachedCommit
  open_handler : s.handler ≠ .over → s.answer = none
  rejected : s.answer = some (.router .rejected) → s.commit = none

namespace Definite

theorem failureState_rejected {prog : MutationProgress}
    (h : failureState prog = .rejected) : prog ≠ .detachedCommit := by
  intro hp
  rw [hp] at h
  exact nomatch h

/-- Without the mark there is no commit. -/
theorem commit_eq_none (h : s.Definite) (hp : s.progress ≠ .detachedCommit) : s.commit = none := by
  cases hc : s.commit with
  | none => rfl
  | some task =>
    have hs : s.commit.isSome = true := by rw [hc]; rfl
    exact absurd (h.detached.mp hs) hp

theorem close (h : s.Definite) {a : OperationAnswer}
    (ha : a = .router .rejected → s.progress ≠ .detachedCommit) :
    (s.close a).Definite where
  detached := h.detached
  open_handler ho := absurd rfl ho
  rejected hr := h.commit_eq_none (ha (Option.some.inj hr))

theorem close_failure (h : s.Definite) : (s.close (.router (failureState s.progress))).Definite :=
  h.close fun ha => failureState_rejected (OperationAnswer.router.inj ha)

/-- The commit task goes on. -/
theorem advance (h : s.Definite) {task task' : CommitTask} (hc : s.commit = some task) :
    Definite { s with commit := some task' } where
  detached := by
    have hd : s.progress = .detachedCommit := h.detached.mp (by rw [hc]; rfl)
    exact ⟨fun _ => hd, fun _ => rfl⟩
  open_handler := h.open_handler
  rejected ha := by
    have hn : s.commit = none := h.rejected ha
    rw [hc] at hn
    exact nomatch hn

theorem answerState_rejected {prog : MutationProgress} {st : Option OperationPublicState}
    {success : Bool} (h : answerState prog st success = .router .rejected) :
    prog ≠ .detachedCommit := by
  cases st with
  | some st => exact nomatch h
  | none =>
    cases success with
    | true => exact nomatch h
    | false => exact failureState_rejected (OperationAnswer.router.inj h)

theorem step (h : s.Definite) {e : OperationEvent} (hs : s.step e = some s') : s'.Definite := by
  cases e with
  | reserve =>
    obtain ⟨_, ⟨⟩⟩ := Option.ite_none_right_eq_some.mp hs
    refine ⟨h.detached.trans ?_, h.open_handler, h.rejected⟩
    show s.progress = .detachedCommit ↔ s.progress.markReserved = .detachedCommit
    cases s.progress <;> decide
  | requestCommit =>
    obtain ⟨hh, ⟨⟩⟩ := Option.ite_none_right_eq_some.mp hs
    exact ⟨h.detached, fun _ => h.open_handler (by rw [hh]; decide), h.rejected⟩
  | grant =>
    obtain ⟨hh, ⟨⟩⟩ := Option.ite_none_right_eq_some.mp hs
    have ha : s.answer = none := h.open_handler (by rw [hh]; decide)
    refine ⟨⟨fun _ => rfl, fun _ => rfl⟩, fun _ => ha, fun hr => ?_⟩
    exact nomatch ha.symm.trans hr
  | run | finish =>
    obtain ⟨hc, ⟨⟩⟩ := Option.ite_none_right_eq_some.mp hs
    exact h.advance hc
  | join =>
    simp only [TrackedOperation.step] at hs
    split at hs
    · rename_i hh _
      obtain ⟨⟩ := hs
      exact ⟨h.detached, fun _ => h.open_handler (by rw [hh]; decide), h.rejected⟩
    · obtain ⟨⟩ := hs
      exact h.close_failure
    · exact nomatch hs
  | respond st success =>
    obtain ⟨_, ⟨⟩⟩ := Option.ite_none_right_eq_some.mp hs
    exact h.close answerState_rejected
  | fail =>
    obtain ⟨_, ⟨⟩⟩ := Option.ite_none_right_eq_some.mp hs
    exact h.close_failure
  | timeout =>
    obtain ⟨_, ⟨⟩⟩ := Option.ite_none_left_eq_some.mp hs
    exact h.close_failure
  | disconnect =>
    obtain ⟨_, ⟨⟩⟩ := Option.ite_none_left_eq_some.mp hs
    exact ⟨h.detached, fun ho => absurd rfl ho, h.rejected⟩

theorem of_reachable {ok : TrackedOperation → OperationEvent → Prop}
    (h : operationMachine.Reachable ok s) : s.Definite :=
  h.invariant ⟨by decide, fun _ => rfl, fun _ => rfl⟩ fun _ _ _ _ ih _ hs => ih.step hs

end Definite

end TrackedOperation

/-! ## Definite answers -/

/-- An upload whose client is told `not-started` has changed no entry and no row and never will, in
    every run whose second looks at the clock are in time; and the commit of an operation that the
    router rejects is never spawned, in any run. -/
theorem definite_answers_are_true (u : UploadTarget) :
    (∀ s, (uploadMachine u).Reachable TrackedUpload.LooksInTime s →
      ∀ response, s.wait = .answered response → response.state = some .notStarted →
        s.mutations = []) ∧
    ∀ s : TrackedOperation, operationMachine.Reachable (fun _ _ => True) s →
      s.answer = some (.router .rejected) → s.commit = none := by
  refine ⟨fun s hs response hw hst => ?_, fun s hs => ?_⟩
  · have hb := TrackedUpload.Bounded.of_reachable hs
    have hbg : s.began = false := (hb.definite response hw hst).1
    by_contra hm
    exact absurd (hb.recorded hm) (by rw [hbg]; decide)
  · exact (TrackedOperation.Definite.of_reachable hs).rejected

/-- The answers to a task that resumes a running session of length 10 at offset 5, with a stage of
    five bytes and a missing target, when nothing fails. -/
def resumedAnswers : (call : UploadCall) → call.Answer
  | .lookup => .ok (.found ⟨10, 5, .running, none⟩)
  | .replacementIdentity => .ok .missing
  | .replacementMetadata => .ok (.missing, none)
  | .metadata => .ok 5
  | .now _ | .outcomeCanBeUnknown => false
  | .beginUploadMutation | .reservedSpaceIsAvailable => true
  | .reserve | .openResumableStage => .ok true
  | .commitStagedFile => .published
  | .track | .receiveUploadBody | .createPrivateUploadStage | .applyReplacementMetadata
  | .openNearestExistingParent | .discardUnrecordedStage | .rollbackUploadAncestors | .reset
  | .resetAndAncestors | .persistInitialCheckpoint _ | .persistCheckpoint _ | .seek | .setLen _
  | .syncFile | .flush | .persistCommitStarted | .removeEmptyUploadStageDirectory
  | .persistAwaitingConfirmation | .persistTerminal _ | .persistUnknown => .ok ()

/-- A `PATCH` at offset 5 of a file of length 10. -/
def resumedTarget : UploadTarget where
  config := exampleConfig
  request := ⟨1, .resume 5, 10, .noReplace, none⟩
  offset := some 5
  offset_eq _ := rfl

/-- What the client has been told, and what the task has changed. -/
def TrackedUpload.seen (s : TrackedUpload) : Option UploadPublicState × List UploadCall :=
  match s.wait with
  | .answered response => (response.state, s.mutations)
  | _ => (none, s.mutations)

/-- The deadline comes between the two looks at the clock. The client is told `not-started`, and
    then the task flushes the stage and writes a checkpoint. -/
theorem not_started_checkpoint_written : (((uploadMachine resumedTarget).run
      (.spawn :: List.replicate 12 (.call resumedAnswers) ++ [.expire, .timeout] ++
        List.replicate 4 (.call resumedAnswers))).map TrackedUpload.seen) =
      some (some .notStarted, [.flush, .persistCheckpoint 5]) := by decide

end DufsRam.Router
