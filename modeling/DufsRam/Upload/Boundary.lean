import DufsRam.Upload.Beyond

/-!
# The mutation boundary of the upload handler

`begin_upload_mutation` divides a run of the upload handler in two. Before it the handler only
reads; after it the handler does not answer `not-started` any more. The protocol `boundary` says
so, call by call.

One answer has to be assumed. When the stage of a resumed upload is open, the handler looks at the
clock twice in a row (`upload/prepare.rs`, lines 895 and 906, and again 1034 and 1045). Only the
first look returns before the boundary; the second one leads to `finish_timed_out_upload`, which
writes. `boundary` lets the second look find the deadline expired only after the boundary.

Results:
* `handleUpload_keeps`: `handle_upload` keeps to `boundary`.
-/

namespace DufsRam.Upload

open StateStore RootedFs

/-- The second looks at the clock (lines 906 and 1045). -/
def UploadCall.looksAgain : UploadCall → Bool
  | .now line => decide (line = 906) || decide (line = 1045)
  | _ => false

/-- The handler has begun to mutate, or has not. -/
def boundary : CallProtocol UploadCall UploadCall.Answer Bool where
  allows began call := call.mutates = true → began = true
  answers began
    | .now line, (expired : Bool) =>
      (UploadCall.now line).looksAgain = true → expired = true → began = true
    | .beginUploadMutation, (begun : Bool) => began = true → begun = true
    | .outcomeCanBeUnknown, (unknown : Bool) => unknown = began
    | _, _ => True
  next began
    | .beginUploadMutation, (begun : Bool) => begun
    | _, _ => began

/-- What the handler may return. -/
def boundaryEnds (began : Bool) (handled : Handled) : Prop :=
  handled.result = .ok () → handled.response.state = some .notStarted → began = false

/-- The handler keeps to the boundary. -/
abbrev Handler.Keeps (began : Bool) (handler : Handler) : Prop :=
  Prog.Keeps boundary boundaryEnds began handler

namespace Handler

variable {c : Config} {r : UploadRequest} {res : UploadResponse} {began : Bool} {next : Handler}

/-! ## Single steps -/

theorem keeps_answer {resp : UploadResponse}
    (h : resp.state = some .notStarted → began = false) : Keeps began (answer resp) :=
  fun _ => h

theorem keeps_fail {fai : Failure} : Keeps began (fail res fai) := nofun

theorem keeps_check {result : Except Failure Unit} (h : Keeps began next) :
    Keeps began (check res result next) := by
  cases result with
  | error fail => exact keeps_fail
  | ok => exact h

variable {call : UploadCall} {status : ℕ} {code : ErrorCode} {awaits : Bool}
  {metadata : Option PreservedFileMetadata} {record : Option UploadCheckpoint}

/-- A call that only reads, and whose answer tells nothing about the boundary. -/
theorem keeps_read {next : call.Answer → Handler} (hr : call.mutates = false)
    (hn : ∀ a, boundary.next began call a = began)
    (h : ∀ a, Keeps began (next a)) : Keeps began (.call call next) := by
  refine ⟨fun hm => ?_, fun a _ => ?_⟩
  · rw [hr] at hm
    exact absurd hm (by decide)
  · rw [hn]
    exact h a

/-- Once it has begun, the handler may make any call. -/
theorem keeps_begun {next : call.Answer → Handler} (h : ∀ a, Keeps true (next a)) :
    Keeps true (.call call next) := by
  refine ⟨fun _ => rfl, fun a ha => ?_⟩
  have hn : boundary.next true call a = true := by
    cases call with
    | beginUploadMutation => exact ha rfl
    | _ => rfl
  rw [hn]
  exact h a

theorem keeps_unlessExpired {line : ℕ} (h : Keeps false next) :
    Keeps false (unlessExpired c r res line next) := by
  refine keeps_read rfl (fun _ => rfl) fun ex => ?_
  cases ex with
  | true => exact keeps_answer fun _ => rfl
  | false => exact h

theorem keeps_answerExpired {line : ℕ} : Keeps false (answerExpired c r res line) :=
  keeps_read rfl (fun _ => rfl) fun _ => keeps_answer fun _ => rfl

/-- The boundary. A handler that is already beyond it is not rejected. -/
theorem keeps_beginOrReject (h : Keeps true next) : Keeps began (beginOrReject c r res next) := by
  refine ⟨nofun, fun begun _ => ?_⟩
  cases begun with
  | true => exact h
  | false => exact keeps_answer fun _ => rfl

theorem keeps_targetConflict {st : UploadPublicState} {len off : Option ℕ}
    (h : st = .notStarted → began = false) :
    Keeps began (targetConflict c res st len off) := by
  refine keeps_read rfl (fun _ => rfl) fun fid => ?_
  cases fid with
  | error fail => exact keeps_fail
  | ok fid => exact keeps_answer fun hs => h (Option.some.inj hs)

/-! ## Beyond the boundary -/

theorem keeps_problem {st : UploadPublicState} {len off : Option ℕ} (h : st ≠ .notStarted) :
    Keeps began (answer (problem c res st len off status code)) :=
  keeps_answer fun hs => absurd (Option.some.inj hs) h

theorem keeps_unknown : Keeps began (answer (unknown c res)) := keeps_problem (by decide)

theorem keeps_awaiting :
    Keeps began (answer (awaiting c r res status code)) := keeps_problem (by decide)

/-- The operator `?` on a call. -/
theorem keeps_begun_check {result : call.Answer → Except Failure Unit} (h : Keeps true next) :
    Keeps true (.call call fun a => check res (result a) next) :=
  keeps_begun fun _ => keeps_check h

theorem keeps_cutBackProblem : Keeps began (answer (cutBackProblem c r res status code)) := by
  refine keeps_problem ?_
  split
  · exact nofun
  · exact nofun

/-- Once it has begun, the handler keeps to the boundary if it does not answer `not-started`. -/
theorem beyond_keeps (awaits : Bool) : Beyond c r res awaits (fun _ _ => True)
    (fun resp => resp.state ≠ some .notStarted) (fun _ => Keeps true) where
  call _ h := keeps_begun fun answer => h answer trivial
  now h h' := by
    refine keeps_begun fun late => ?_
    cases late with
    | true => exact h
    | false => exact h'
  fail _ _ := keeps_fail
  failOther := keeps_fail
  answer h := keeps_answer fun hs => absurd hs h
  unknown := nofun
  unknownAt _ := nofun
  unpublished := nofun
  rejected _ := nofun
  running _ _ := nofun
  kept _ _ := nofun
  cutBackProblem _ := by
    unfold cutBackProblem
    split
    · exact nofun
    · exact nofun
  committed := nofun
  rivalled := nofun
  awaiting _ _ := nofun

/-! ## The open stage -/

/-- A fresh upload has begun when its stage is open; a resumed one may not have. -/
theorem keeps_unlessPassed {x answered y : ℕ} (hs : (UploadCall.now y).looksAgain = true)
    (hf : r.mode.isResume = false → began = true) (h : Keeps began next) :
    Keeps began (unlessPassed c r res x answered y next) := by
  have ha : Keeps began (.call (.now y) fun (ex : Bool) =>
      if ex then finishTimedOutUpload c r res else next) := by
    refine ⟨nofun, fun ex he => ?_⟩
    cases ex with
    | false => exact h
    | true =>
      have hb : began = true := he hs rfl
      subst hb
      exact @Beyond.finishTimedOutUpload _ _ _ _ false _ _ _ (beyond_keeps false)
  refine keeps_read rfl (fun _ => rfl) fun ex => ?_
  split
  · refine ⟨nofun, fun unknown hu => ?_⟩
    cases unknown with
    | true => exact ha
    | false =>
      have hb : began = false := hu.symm
      subst hb
      exact keeps_answerExpired
  · exact ha

theorem keeps_confirmSpace (hf : r.mode.isResume = false → began = true) :
    Keeps began (confirmSpace c r res awaits metadata) := by
  have ht : Keeps true (transferUploadBody c r res awaits metadata) :=
    @Beyond.transferUploadBody _ _ _ _ false _ _ _ _ (beyond_keeps awaits)
  have hfl : Keeps true (finishPrecommitSpaceFailure c r res) :=
    @Beyond.finishPrecommitSpaceFailure _ _ _ _ false _ _ _ (beyond_keeps awaits)
  refine keeps_read rfl (fun _ => rfl) fun avail => ?_
  cases avail with
  | true =>
    exact keeps_unlessPassed (by decide) hf (keeps_beginOrReject ht)
  | false =>
    cases awaits with
    | true => exact keeps_awaiting
    | false => exact keeps_beginOrReject hfl

theorem keeps_reserveSpace (hf : r.mode.isResume = false → began = true) :
    Keeps began (reserveSpace c r res awaits metadata) := by
  unfold reserveSpace
  split
  · refine keeps_read rfl (fun _ => rfl) fun rsv => ?_
    rcases rsv with fail | (_ | _)
    · exact keeps_fail
    · cases awaits with
      | true => exact keeps_awaiting
      | false => exact keeps_cutBackProblem
    · exact keeps_confirmSpace hf
  · exact keeps_confirmSpace hf

theorem keeps_bindResumed {cp : UploadCheckpoint} {len : ℕ}
    (h : ∀ began, Keeps began next) : Keeps false (bindResumed c r res cp len next) := by
  have hb (began : Bool) : Keeps began (if cp.state = .running ∧
      cp.targetRevision ≠ r.overwrite.revision then
        beginOrReject c r res (.call (.persistCheckpoint r.initialOffset) fun pers =>
          check res pers next)
      else next) := by
    split
    · exact keeps_beginOrReject (keeps_begun_check (h true))
    · exact h began
  show Keeps false (if _ then _ else _)
  split
  · exact keeps_beginOrReject (keeps_begun_check (hb true))
  · exact hb false

theorem keeps_openResumed {cp : UploadCheckpoint} (h : ∀ began, Keeps began next) :
    Keeps false (openResumed c r res cp next) := by
  refine keeps_read rfl (fun _ => rfl) fun opened => ?_
  rcases opened with fail | (_ | _)
  · exact keeps_fail
  · exact keeps_answer fun _ => rfl
  refine keeps_read rfl (fun _ => rfl) fun len => ?_
  rcases len with fail | len
  · exact keeps_fail
  refine keeps_read rfl (fun _ => rfl) fun sought => ?_
  exact keeps_check (keeps_unlessExpired (keeps_bindResumed h))

theorem keeps_undoFresh (h : Keeps true next) : Keeps true (undoFresh res next) :=
  keeps_begun fun _ => keeps_begun fun _ => keeps_check (keeps_check h)

theorem keeps_createStage (hr : res.state ≠ some .notStarted) (h : Keeps true next) :
    Keeps true (createStage c r res next) := by
  refine keeps_begun fun created => ?_
  rcases created with (_ | fail) | created
  · exact keeps_problem (by decide)
  · exact keeps_fail
  refine keeps_begun fun tracked => ?_
  rcases tracked with err | tracked
  · cases err with
    | timedOut =>
      refine keeps_undoFresh (keeps_begun fun ex => ?_)
      cases ex with
      | true => exact keeps_unknown
      | false => exact keeps_answer fun hs => absurd hs hr
    | notFound | notADirectory | other => exact keeps_undoFresh keeps_fail
  · refine keeps_begun fun ex => ?_
    cases ex with
    | true => exact keeps_undoFresh keeps_unknown
    | false => exact @Beyond.firstCheckpoint _ _ _ _ false _ _ _ _ (beyond_keeps false) fun _ => h

theorem keeps_createFresh (hr : res.state ≠ some .notStarted) (h : Keeps true next) :
    Keeps false (createFresh c r res next) := by
  refine keeps_read rfl (fun _ => rfl) fun opened => ?_
  rcases opened with fail | opened
  · exact keeps_fail
  refine keeps_read rfl (fun _ => rfl) fun rsv => ?_
  rcases rsv with fail | (_ | _)
  · exact keeps_fail
  · exact keeps_problem (by decide)
  · exact keeps_unlessExpired (keeps_beginOrReject (keeps_createStage hr h))

/-! ## The checks -/

theorem keeps_checkSession {sess : Option UploadCheckpoint} (hrs : res.state ≠ some .notStarted)
    (hs : sess = none → r.mode.isResume = false)
    (hr : sess ≠ none → r.mode.isResume = true) :
    Keeps false (checkSession c r res sess metadata) := by
  cases sess with
  | none =>
    show Keeps false (if _ then _ else if _ then _ else _)
    split
    · exact keeps_fail
    split
    · exact keeps_problem (by decide)
    · refine keeps_createFresh hrs (keeps_unlessPassed (by decide) (fun _ => rfl) ?_)
      exact keeps_reserveSpace fun _ => rfl
  | some cp =>
    have hm : r.mode.isResume = true := hr nofun
    have hf (began : Bool) : r.mode.isResume = false → began = true := by
      rw [hm]
      exact nofun
    show Keeps false (if _ then _ else if _ then _ else if _ then _ else if _ then _ else _)
    split
    · exact keeps_answer fun _ => rfl
    split
    · exact keeps_answer fun _ => rfl
    split
    · exact keeps_fail
    split
    · exact keeps_answer fun _ => rfl
    · refine keeps_openResumed fun began => keeps_unlessPassed (by decide) (hf began) ?_
      exact keeps_reserveSpace (hf began)

theorem keeps_afterInspection (hr : res.state ≠ some .notStarted) :
    Keeps false (afterInspection c r res record metadata) := by
  refine keeps_unlessExpired ?_
  cases hm : r.mode with
  | fresh =>
    refine keeps_unlessExpired (keeps_checkSession hr (fun _ => ?_) fun h => absurd rfl h)
    rw [hm]
    rfl
  | resume off =>
    cases record with
    | none => exact keeps_problem (by decide)
    | some cp =>
      refine keeps_unlessExpired (keeps_checkSession hr nofun fun _ => ?_)
      rw [hm]
      rfl

theorem keeps_inspectTarget (hr : res.state ≠ some .notStarted) :
    Keeps false (inspectTarget c r res record) := by
  have hc : Keeps false (targetConflict c res (conflictState record) (some r.uploadLength)
      (record.map UploadCheckpoint.durableOffset)) := keeps_targetConflict fun _ => rfl
  refine keeps_read rfl (fun _ => rfl) fun fid => ?_
  rcases fid with fail | fid
  · exact keeps_fail
  cases r.overwrite with
  | noReplace =>
    simp only
    split
    · exact keeps_answer fun _ => rfl
    split
    · exact keeps_answer fun _ => rfl
    · exact keeps_afterInspection hr
  | ifUnchanged want =>
    simp only
    split
    · exact hc
    refine keeps_read rfl (fun _ => rfl) fun t => ?_
    rcases t with (_ | fail) | ⟨fid, metadata⟩
    · exact hc
    · exact keeps_fail
    show Keeps false (if _ then _ else _)
    split
    · exact hc
    · exact keeps_afterInspection hr

theorem keeps_trackResumed (hr : res.state ≠ some .notStarted) :
    Keeps false (trackResumed c r res record) := by
  unfold trackResumed
  split
  · refine keeps_read rfl (fun _ => rfl) fun tracked => ?_
    rcases tracked with err | tracked
    · cases err with
      | notFound | notADirectory => exact keeps_problem (by decide)
      | timedOut => exact keeps_answerExpired
      | other => exact keeps_fail
    · exact keeps_unlessExpired (keeps_inspectTarget hr)
  · exact keeps_inspectTarget hr

theorem keeps_admitFound {record : UploadCheckpoint} (hr : res.state ≠ some .notStarted) :
    Keeps false (admitFound c r res record) := by
  cases hs : record.state with
  | committed =>
    simp only [admitFound, hs]
    split
    · exact keeps_answer fun _ => rfl
    · exact keeps_answer fun _ => rfl
  | rejected | unknown =>
    simp only [admitFound, hs]
    exact keeps_answer fun _ => rfl
  | running =>
    simp only [admitFound, hs]
    split
    · exact keeps_trackResumed hr
    · exact keeps_answer fun _ => rfl
  | awaitingConfirmation =>
    simp only [admitFound, hs]
    split
    · exact keeps_targetConflict fun _ => rfl
    split
    · exact keeps_answer fun _ => rfl
    split
    · exact keeps_answer fun _ => rfl
    · exact keeps_trackResumed hr

theorem keeps_prepareUpload (hr : res.state ≠ some .notStarted) :
    Keeps false (prepareUpload c r res) := by
  refine keeps_unlessExpired (keeps_read rfl (fun _ => rfl) fun lookup => ?_)
  rcases lookup with fail | lookup
  · exact keeps_fail
  cases lookup with
  | foreignOwner => exact keeps_problem (by decide)
  | found record => exact keeps_admitFound hr
  | notSeen =>
    show Keeps false (if _ then _ else _)
    split
    · exact keeps_problem (by decide)
    · exact keeps_trackResumed hr

theorem keeps_renderStoreProblem {ha : Handled} (h : boundaryEnds began ha) :
    Keeps began (renderStoreProblem c r ha) := by
  obtain ⟨resp, result⟩ := ha
  rcases result with fail | result
  · cases fail with
    | dispatch | conflict | full => exact keeps_answer nofun
    | timedOut | other => exact keeps_fail
  · exact h

/-- Whatever the answers to its calls are, the handler mutates only beyond the boundary, and does
    not answer `not-started` there. -/
theorem handleUpload_keeps (c : Config) (r : UploadRequest) :
    Keeps false (handleUpload c r .default) :=
  (keeps_prepareUpload (by decide)).bind fun _ _ h => keeps_renderStoreProblem h

end Handler

end DufsRam.Upload
