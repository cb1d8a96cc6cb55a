import DufsRam.Upload.Beyond
import DufsRam.Upload.Classify

/-!
# The upload handler and the browser agree

Every response that the upload handlers return is read by the browser as the state it declares, if
the answers to their calls are as `agreement` says: the session that is found has the length of the
request, no stage stands where a fresh one is created, no session conflicts with the one that is
stored, and marking a stage as active times out only at the deadline.

Results:
* `handleUpload_sound`: what `handle_upload` returns.
* `dispatchUploadStatus_reads`: what the handler of a query returns.
-/

namespace DufsRam.Upload

open StateStore RootedFs

/-! ## Readable responses -/

/-- The phase of a request as the browser has it. -/
def UploadMode.phase : UploadMode → UploadRequestPhase
  | .fresh => .fresh
  | .resume _ => .resume

/-- The response declares a state, and the browser reads it. -/
def UploadResponse.Reads (phase : UploadRequestPhase) (uploadId : Uuid) (expectedLength : ℕ)
    (response : UploadResponse) : Prop :=
  ∃ state, response.state = some state ∧ ∀ csrfRejected,
    (classifyUploadResponse phase csrfRejected response uploadId expectedLength).kind =
      .declared state

/-- A request whose numbers the browser can read. -/
structure UploadRequest.Representable (r : UploadRequest) : Prop where
  length : r.uploadLength ≤ maxSafeInteger
  offset : ∀ n, r.mode.offset = some n → n ≤ r.uploadLength

/-- The response has no number yet. -/
structure UploadResponse.Blank (res : UploadResponse) : Prop where
  length : res.length = none
  offset : res.offset = none

theorem UploadRequest.Representable.initialOffset {r : UploadRequest} (hr : r.Representable) :
    r.initialOffset ≤ r.uploadLength := by
  unfold UploadRequest.initialOffset
  cases ho : r.mode.offset with
  | none => exact Nat.zero_le _
  | some n => exact hr.offset n ho

/-! ## Answers -/

/-- The records that the schema admits (`schema/product.sql`, lines 70-74). -/
structure UploadCheckpoint.WellFormed (record : UploadCheckpoint) : Prop where
  offset : record.durableOffset ≤ record.uploadLength
  complete : record.state = .committed ∨ record.state = .awaitingConfirmation →
    record.durableOffset = record.uploadLength

/-- The answers under which the browser can follow. -/
def UploadCall.plain (length : ℕ) (call : UploadCall) (answer : call.Answer) : Prop :=
  call.failure answer ≠ some .conflict ∧
    match call, answer with
    | .lookup, .ok (.found record) => record.WellFormed ∧ record.uploadLength = length
    | .createPrivateUploadStage, .error .alreadyExists => False
    | _, _ => True

/-- The handler knows that the deadline has come, or does not. -/
def agreement (length : ℕ) : CallProtocol UploadCall UploadCall.Answer Bool where
  allows _ _ := True
  answers expired call answer :=
    call.plain length answer ∧
      match call, answer with
      | .now _, (late : Bool) => expired = true → late = true
      | _, _ => True
  next expired
    | .now _, (late : Bool) => late
    | .track, .error .timedOut => true
    | _, _ => expired

/-- What a handler may return: a response that the browser reads, or an error that is rendered
    over a response without an offset. -/
def agreementEnds (phase : UploadRequestPhase) (uploadId : Uuid) (length : ℕ) (_ : Bool)
    (handled : Handled) : Prop :=
  match handled.result with
  | .ok _ => handled.response.Reads phase uploadId length
  | .error failure => failure ≠ .conflict ∧ handled.response.offset = none

/-- The handler agrees with the browser about the request. -/
abbrev Handler.Sound (c : Config) (r : UploadRequest) (expired : Bool) (handler : Handler) : Prop :=
  Prog.Keeps (agreement r.uploadLength) (agreementEnds r.mode.phase c.uploadId r.uploadLength)
    expired handler

namespace Handler

variable {c : Config} {r : UploadRequest} {res : UploadResponse} {expired awaits : Bool}
  {next : Handler}

/-! ## Responses -/

variable {mode : UploadMode} {state : UploadPublicState} {status length : ℕ} {offset : Option ℕ}
  {code : ErrorCode} {handled : Handled}

theorem phase_ne_discard : mode.phase ≠ .discard := by
  cases mode with
  | fresh | resume => exact nofun

/-- A status that the browser expects for a state in both phases. -/
theorem mem_matrix (hf : status ∈ uploadResponseStatusMatrix .fresh state)
    (hrs : status ∈ uploadResponseStatusMatrix .resume state) :
    status ∈ uploadResponseStatusMatrix mode.phase state := by
  cases mode with
  | fresh => exact hf
  | resume offset => exact hrs

/-- A problem with a status of the matrix and numbers that fit. -/
theorem reads_problem (hr : r.Representable) (hres : res.length = none) {length : Option ℕ}
    (hf : state.Fits r.uploadLength length (offset.or res.offset))
    (hs : status ∈ uploadResponseStatusMatrix r.mode.phase state) (hc : status ≠ 403)
    (hl : status = 429 → state ≠ .unknown) :
    (problem c res state length offset status code).Reads r.mode.phase c.uploadId r.uploadLength := by
  refine ⟨state, rfl, fun csrfRejected => ?_⟩
  refine kind_eq_declared hr.length rfl rfl ?_ hs hc phase_ne_discard
    fun h429 hu => absurd hu (hl h429)
  show state.Fits r.uploadLength (length.or res.length) (offset.or res.offset)
  rw [hres, Option.or_none]
  exact hf

/-- The offset of the request fits every state with an optional offset. -/
theorem offset_le (hr : r.Representable) (hres : res.Blank) :
    ∀ n, (r.mode.offset.or res.offset) = some n → n ≤ r.uploadLength := by
  rw [hres.offset, Option.or_none]
  exact hr.offset

theorem reads_unknown (hr : r.Representable) (hres : res.length = none)
    (ho : ∀ n, res.offset = some n → n ≤ r.uploadLength) :
    (unknown c res).Reads r.mode.phase c.uploadId r.uploadLength := by
  exact reads_problem hr hres ⟨nofun, ho⟩ (mem_matrix (by decide) (by decide)) (by decide)
    (by decide)

theorem reads_notStarted (hr : r.Representable) (hres : res.Blank) :
    (notStarted c r res).Reads r.mode.phase c.uploadId r.uploadLength := by
  exact reads_problem hr hres.length ⟨rfl, offset_le hr hres⟩
    (mem_matrix (by decide) (by decide)) (by decide) nofun

/-- A rejection is the same in both phases. -/
theorem reads_rejected (hr : r.Representable) (hres : res.Blank)
    (ho : ∀ n, offset = some n → n ≤ r.uploadLength)
    (hs : status ∈ [408, 409, 413, 500, 507]) :
    (problem c res .rejected (some r.uploadLength) offset status code).Reads r.mode.phase
      c.uploadId r.uploadLength := by
  refine reads_problem hr hres.length ⟨rfl, ?_⟩ ?_ ?_ nofun
  · rw [hres.offset, Option.or_none]
    exact ho
  · exact mem_matrix hs hs
  · rintro rfl
    exact absurd hs (by decide)

/-- A held session: running, or awaiting its confirmation. -/
theorem reads_held (hr : r.Representable) (hres : res.length = none)
    (hst : state = .running ∨ state = .awaitingConfirmation) {offset : ℕ}
    (ho : offset ≤ r.uploadLength)
    (hs : status ∈ uploadResponseStatusMatrix r.mode.phase state) (hc : status ≠ 403) :
    (problem c res state (some r.uploadLength) (some offset) status code).Reads r.mode.phase
      c.uploadId r.uploadLength := by
  obtain rfl | rfl := hst
  · exact reads_problem hr hres ⟨rfl, offset, ho, rfl⟩ hs hc nofun
  · exact reads_problem hr hres ⟨rfl, offset, ho, rfl⟩ hs hc nofun

theorem phase_of_isResume (h : mode.isResume = true) : mode.phase = .resume := by
  cases mode with
  | fresh => exact nomatch h
  | resume offset => rfl

theorem reads_awaiting (hr : r.Representable) (hres : res.Blank) (hrs : r.mode.isResume = true)
    (hs : status ∈ [408, 409, 413, 500, 507]) :
    (awaiting c r res status code).Reads r.mode.phase c.uploadId r.uploadLength := by
  refine reads_held hr hres.length (.inr rfl) le_rfl ?_ ?_
  · rw [phase_of_isResume hrs]
    exact hs
  · rintro rfl
    exact absurd hs (by decide)

/-! ## Single steps -/

theorem sound_answer {resp : UploadResponse}
    (h : resp.Reads r.mode.phase c.uploadId r.uploadLength) :
    Sound c r expired (answer resp) := h

theorem sound_fail {fai : Failure} (hf : fai ≠ .conflict)
    (hres : res.offset = none) : Sound c r expired (fail res fai) := ⟨hf, hres⟩

theorem sound_check {result : Except Failure Unit} (hrs : result ≠ .error .conflict)
    (hres : res.offset = none) (h : Sound c r expired next) :
    Sound c r expired (check res result next) := by
  cases result with
  | error fail => exact sound_fail (fun hf => hrs (congrArg _ hf)) hres
  | ok => exact h

/-- A call that is not about the time. -/
theorem sound_call {call : UploadCall} {next : call.Answer → Handler}
    (hn : ∀ a, (agreement r.uploadLength).next expired call a = expired)
    (h : ∀ a, call.plain r.uploadLength a → Sound c r expired (next a)) :
    Sound c r expired (.call call next) := by
  refine ⟨trivial, fun a ha => ?_⟩
  rw [hn]
  exact h a ha.1

theorem next_of_timeless {call : UploadCall} (h : call.timeless = true) (a : call.Answer) :
    (agreement length).next expired call a = expired := by
  cases call with
  | now | track => cases h
  | _ => rfl

/-- A look at the clock. -/
theorem sound_now {line : ℕ} {next : Bool → Handler} (h : Sound c r true (next true))
    (h' : expired = false → Sound c r false (next false)) :
    Sound c r expired (.call (.now line) next) := by
  refine ⟨trivial, fun late hl => ?_⟩
  cases (late : Bool) with
  | true => exact h
  | false =>
    refine h' ?_
    rw [← Bool.not_eq_true]
    exact fun he => nomatch hl.2 he

/-- The operator `?` on a call. -/
theorem sound_call_check {call : UploadCall} {result : call.Answer → Except Failure Unit}
    (hn : ∀ a, (agreement r.uploadLength).next expired call a = expired)
    (hrs : ∀ a, call.plain r.uploadLength a → result a ≠ .error .conflict)
    (hres : res.offset = none) (h : Sound c r expired next) :
    Sound c r expired (.call call fun a => check res (result a) next) :=
  sound_call hn fun a hp => sound_check (hrs a hp) hres h

/-! ## Beyond the boundary -/

theorem sound_unknown (hr : r.Representable) (hres : res.Blank) :
    Sound c r expired (answer (unknown c res)) :=
  sound_answer (reads_unknown hr hres.length (by rw [hres.offset]; nofun))

theorem ne_conflict {fail : Failure} (h : some fail ≠ some Failure.conflict) : fail ≠ .conflict :=
  fun hf => h (congrArg some hf)

theorem offset_of_isResume (hrs : r.mode.isResume = true) :
    r.mode.offset = some r.initialOffset := by
  unfold UploadRequest.initialOffset
  cases hm : r.mode with
  | fresh =>
    rw [hm] at hrs
    exact nomatch hrs
  | resume offset => rfl

section

variable (hr : r.Representable) (hres : res.Blank)
include hr hres

variable {status : ℕ} {code : ErrorCode} {metadata : Option PreservedFileMetadata}

/-- A resumed upload that is left as it was. -/
theorem reads_running (hrs : r.mode.isResume = true) (hs : status ∈ [408, 409, 413, 500, 507]) :
    (problem c res .running (some r.uploadLength) (some r.initialOffset) status code).Reads
      r.mode.phase c.uploadId r.uploadLength := by
  refine reads_held hr hres.length (.inl rfl) hr.initialOffset ?_ ?_
  · rw [phase_of_isResume hrs]
    exact hs
  · rintro rfl
    exact absurd hs (by decide)

theorem reads_cutBackProblem (hs : status ∈ [408, 409, 413, 500, 507]) :
    (cutBackProblem c r res status code).Reads r.mode.phase c.uploadId r.uploadLength := by
  unfold cutBackProblem
  cases hrs : r.mode.isResume with
  | true =>
    rw [offset_of_isResume hrs]
    exact reads_running hr hres hrs hs
  | false => exact reads_rejected hr hres hr.offset hs

omit hres in
theorem reads_committed :
    ({ res with status := successStatus r.mode }.recordHeaders ⟨c.uploadId, .committed,
      some r.uploadLength, some r.uploadLength⟩).Reads r.mode.phase c.uploadId r.uploadLength := by
  have hs : successStatus r.mode ∈ uploadResponseStatusMatrix r.mode.phase .committed ∧
      successStatus r.mode ≠ 403 := by
    cases r.mode with
    | fresh => decide
    | resume offset =>
      exact ⟨by simp [successStatus, UploadMode.phase, uploadResponseStatusMatrix],
        by simp [successStatus]⟩
  exact ⟨.committed, rfl, fun csrfRejected => kind_eq_declared hr.length rfl rfl ⟨rfl, rfl⟩
    hs.1 hs.2 phase_ne_discard (by simp)⟩

/-- Beyond the boundary the handler agrees with the browser. -/
theorem beyond_sound (hawaits : awaits = true → r.mode.isResume = true) :
    Beyond c r res awaits (UploadCall.plain r.uploadLength)
      (UploadResponse.Reads r.mode.phase c.uploadId r.uploadLength) (Sound c r) where
  call ht h := sound_call (next_of_timeless ht) h
  now h h' := sound_now h fun _ => h'
  fail hok hf := by
    have hne := hok.1
    rw [hf] at hne
    exact sound_fail (ne_conflict hne) hres.offset
  failOther := sound_fail (by decide) hres.offset
  answer h := sound_answer h
  unknown := reads_unknown hr hres.length (by rw [hres.offset]; nofun)
  unknownAt ho := by
    refine reads_unknown hr hres.length ?_
    rintro n ⟨⟩
    exact ho.elim (fun heq => heq ▸ hr.initialOffset) id
  unpublished := by
    refine reads_problem hr hres.length ⟨?_, ?_⟩ (mem_matrix (by decide) (by decide)) (by decide)
      (by decide)
    · rintro n ⟨⟩
      rfl
    · rintro n ⟨⟩
      exact le_rfl
  rejected hs := reads_rejected hr hres nofun hs
  running hrs hs := reads_running hr hres hrs hs
  kept ho hs := by
    refine reads_held hr hres.length (.inl rfl) ho ?_ ?_
    · obtain rfl | rfl := (by simpa using hs : _ = 408 ∨ _ = 409)
      · exact mem_matrix (by decide) (by decide)
      · exact mem_matrix (by decide) (by decide)
    · rintro rfl
      exact absurd hs (by decide)
  cutBackProblem hs := reads_cutBackProblem hr hres hs
  committed := reads_committed hr
  rivalled := reads_held hr hres.length (.inr rfl) le_rfl (mem_matrix (by decide) (by decide))
    (by decide)
  awaiting h hs := reads_awaiting hr hres (hawaits h) hs

/-- Where no confirmation is awaited. -/
theorem beyond : Beyond c r res false (UploadCall.plain r.uploadLength)
    (UploadResponse.Reads r.mode.phase c.uploadId r.uploadLength) (Sound c r) :=
  beyond_sound hr hres nofun

/-! ## The clock -/

theorem sound_unlessExpired {line : ℕ} (h : ∀ expired, Sound c r expired next) :
    Sound c r expired (unlessExpired c r res line next) :=
  sound_now (sound_answer (reads_notStarted hr hres)) fun _ => h false

/-- A deadline that has come has come when the handler looks again. -/
theorem sound_answerExpired {line : ℕ} : Sound c r true (answerExpired c r res line) :=
  sound_now (sound_answer (reads_notStarted hr hres)) nofun

theorem sound_beginOrReject (h : Sound c r expired next) :
    Sound c r expired (beginOrReject c r res next) := by
  refine sound_call (fun _ => rfl) fun begun _ => ?_
  cases begun with
  | true => exact h
  | false => exact sound_answer (reads_notStarted hr hres)

theorem sound_unlessPassed {x answered y : ℕ} (h : ∀ expired, Sound c r expired next) :
    Sound c r expired (unlessPassed c r res x answered y next) := by
  have ha (expired : Bool) : Sound c r expired (.call (.now y) fun (expired : Bool) =>
      if expired then finishTimedOutUpload c r res else next) :=
    sound_now ((beyond hr hres).finishTimedOutUpload) fun _ => h false
  refine sound_now ?_ fun _ => ha false
  split
  · refine sound_call (fun _ => rfl) fun unknown _ => ?_
    cases unknown with
    | true => exact ha true
    | false => exact sound_answerExpired hr hres
  · exact ha true

variable (hawaits : awaits = true → r.mode.isResume = true)
include hawaits

theorem sound_confirmSpace : Sound c r expired (confirmSpace c r res awaits metadata) := by
  refine sound_call (fun _ => rfl) fun avail _ => ?_
  cases avail with
  | true =>
    refine sound_unlessPassed hr hres fun expired => sound_beginOrReject hr hres ?_
    exact (beyond_sound hr hres hawaits).transferUploadBody
  | false =>
    refine (beyond_sound hr hres hawaits).awaitingOr (by decide) (sound_beginOrReject hr hres ?_)
    exact (beyond hr hres).finishPrecommitSpaceFailure

theorem sound_reserveSpace : Sound c r expired (reserveSpace c r res awaits metadata) := by
  unfold reserveSpace
  split
  · refine sound_call (fun _ => rfl) fun rsv hrs => ?_
    rcases rsv with fail | (_ | _)
    · exact sound_fail (ne_conflict hrs.1) hres.offset
    · exact (beyond_sound hr hres hawaits).awaitingOr (by decide)
        (sound_answer (reads_cutBackProblem hr hres (by decide)))
    · exact sound_confirmSpace hr hres hawaits
  · exact sound_confirmSpace hr hres hawaits

end

/-! ## The open stage -/

/-- Marking a stage as active; it times out only at the deadline. -/
theorem sound_track {next : Except TrackError Unit → Handler}
    (hl : Sound c r true (next (.error .timedOut)))
    (h : ∀ a, a ≠ .error .timedOut → Sound c r expired (next a)) :
    Sound c r expired (.call .track next) := by
  refine ⟨trivial, fun a _ => ?_⟩
  rcases a with (_ | _ | _ | _) | _
  · exact h _ nofun
  · exact h _ nofun
  · exact hl
  · exact h _ nofun
  · exact h _ nofun

theorem sound_undoFresh (hres : res.offset = none) (h : Sound c r expired next) :
    Sound c r expired (undoFresh res next) := by
  refine sound_call (fun _ => rfl) fun discarded hd => ?_
  refine sound_call_check (fun _ => rfl) (fun _ hp h => hp.1 (h ▸ rfl)) hres ?_
  exact sound_check (fun h => hd.1 (h ▸ rfl)) hres h

theorem heldState_cases (checkpoint : UploadCheckpoint) :
    heldState checkpoint = .running ∨ heldState checkpoint = .awaitingConfirmation := by
  unfold heldState
  split
  · exact .inr rfl
  · exact .inl rfl

section

variable (hr : r.Representable) (hres : res.Blank)
include hr hres

variable {checkpoint : UploadCheckpoint} {metadata : Option PreservedFileMetadata}
  {record : Option UploadCheckpoint}

/-- A session that is left as it was, for a resumed upload. -/
theorem sound_heldState {offset status : ℕ} {code : ErrorCode} (hrs : r.mode.isResume = true)
    (ho : offset ≤ r.uploadLength) (hst : status ∈ [408, 409, 413, 500, 507]) :
    Sound c r expired (answer (problem c res (heldState checkpoint) (some r.uploadLength)
      (some offset) status code)) := by
  have hm : status ∈ uploadResponseStatusMatrix r.mode.phase (heldState checkpoint) := by
    rw [phase_of_isResume hrs]
    obtain hs | hs := heldState_cases checkpoint
    · rw [hs]
      exact hst
    · rw [hs]
      exact hst
  refine sound_answer (reads_held hr hres.length (heldState_cases checkpoint) ho hm ?_)
  rintro rfl
  exact absurd hst (by decide)

theorem sound_bindResumed {length : ℕ} (h : Sound c r expired next) :
    Sound c r expired (bindResumed c r res checkpoint length next) := by
  have hb : Sound c r expired (if checkpoint.state = .running ∧
      checkpoint.targetRevision ≠ r.overwrite.revision then
        beginOrReject c r res (.call (.persistCheckpoint r.initialOffset) fun pers =>
          check res pers next)
      else next) := by
    split
    · refine sound_beginOrReject hr hres ?_
      exact sound_call_check (fun _ => rfl) (fun _ hp h => hp.1 (h ▸ rfl)) hres.offset h
    · exact h
  show Sound c r expired (if _ then _ else _)
  split
  · refine sound_beginOrReject hr hres ?_
    exact sound_call_check (fun _ => rfl) (fun _ hp h => hp.1 (h ▸ rfl)) hres.offset hb
  · exact hb

theorem sound_openResumed (hrs : r.mode.isResume = true) (h : ∀ expired, Sound c r expired next) :
    Sound c r expired (openResumed c r res checkpoint next) := by
  refine sound_call (fun _ => rfl) fun opened ho => ?_
  rcases opened with fail | (_ | _)
  · exact sound_fail (ne_conflict ho.1) hres.offset
  · rw [offset_of_isResume hrs]
    exact sound_heldState hr hres hrs hr.initialOffset (by decide)
  refine sound_call (fun _ => rfl) fun length hl => ?_
  rcases length with fail | length
  · exact sound_fail (ne_conflict hl.1) hres.offset
  refine sound_call_check (fun _ => rfl) (fun _ hp h => hp.1 (h ▸ rfl)) hres.offset ?_
  exact sound_unlessExpired hr hres fun expired => sound_bindResumed hr hres (h expired)

theorem sound_createStage (h : ∀ expired, Sound c r expired next) :
    Sound c r expired (createStage c r res next) := by
  refine sound_call (fun _ => rfl) fun created hc => ?_
  rcases created with (_ | fail) | created
  · exact hc.2.elim
  · exact sound_fail (ne_conflict hc.1) hres.offset
  refine sound_track ?_ fun tracked ht => ?_
  · -- The deadline has come, so it is found expired once the stage is removed.
    exact sound_undoFresh hres.offset (sound_now (sound_unknown hr hres) nofun)
  rcases tracked with err | tracked
  · cases err with
    | timedOut => exact absurd rfl ht
    | notFound | notADirectory | other =>
      exact sound_undoFresh hres.offset (sound_fail (by decide) hres.offset)
  · refine sound_now (sound_undoFresh hres.offset (sound_unknown hr hres)) fun _ => ?_
    exact (beyond hr hres).firstCheckpoint h

theorem sound_createFresh (h : ∀ expired, Sound c r expired next) :
    Sound c r expired (createFresh c r res next) := by
  refine sound_call (fun _ => rfl) fun opened ho => ?_
  rcases opened with fail | opened
  · exact sound_fail (ne_conflict ho.1) hres.offset
  refine sound_call (fun _ => rfl) fun rsv hrs => ?_
  rcases rsv with fail | (_ | _)
  · exact sound_fail (ne_conflict hrs.1) hres.offset
  · exact sound_answer (reads_rejected hr hres nofun (by decide))
  · refine sound_unlessExpired hr hres fun expired => sound_beginOrReject hr hres ?_
    exact sound_createStage hr hres h

/-! ## The checks -/

theorem reads_notFound : (notFound c res).Reads r.mode.phase c.uploadId r.uploadLength := by
  refine reads_problem hr hres.length ⟨rfl, ?_⟩ (mem_matrix (by decide) (by decide)) (by decide)
    (by decide)
  rw [hres.offset]
  rfl

theorem sound_checkSession_none : Sound c r expired (checkSession c r res none metadata) := by
  show Sound c r expired (if _ then _ else if _ then _ else _)
  split
  · exact sound_fail (by decide) hres.offset
  split
  · exact sound_answer (reads_rejected hr hres hr.offset (by decide))
  · refine sound_createFresh hr hres fun expired => sound_unlessPassed hr hres fun expired => ?_
    exact sound_reserveSpace hr hres fun hawaits => Bool.noConfusion hawaits

theorem sound_checkSession_some (hrs : r.mode.isResume = true)
    (hrc : checkpoint.WellFormed ∧ checkpoint.uploadLength = r.uploadLength) :
    Sound c r expired (checkSession c r res (some checkpoint) metadata) := by
  obtain ⟨hw, hl⟩ := hrc
  have ho : checkpoint.durableOffset ≤ r.uploadLength := hl ▸ hw.offset
  show Sound c r expired (if _ then _ else if _ then _ else if _ then _ else if _ then _ else _)
  rw [hl]
  split
  · exact sound_heldState hr hres hrs ho (by decide)
  split
  · exact sound_heldState hr hres hrs ho (by decide)
  split
  · exact sound_fail (by decide) hres.offset
  split
  · rw [offset_of_isResume hrs]
    exact sound_heldState hr hres hrs hr.initialOffset (by decide)
  · refine sound_openResumed hr hres hrs fun expired => ?_
    refine sound_unlessPassed hr hres fun expired => ?_
    exact sound_reserveSpace hr hres fun _ => hrs

/-- The record with which a request goes on has its length. -/
abbrev Recorded (r : UploadRequest) (record : Option UploadCheckpoint) : Prop :=
  ∀ checkpoint, record = some checkpoint →
    checkpoint.WellFormed ∧ checkpoint.uploadLength = r.uploadLength

theorem sound_afterInspection (hrc : Recorded r record) :
    Sound c r expired (afterInspection c r res record metadata) := by
  refine sound_unlessExpired hr hres fun expired => ?_
  cases hm : r.mode with
  | fresh => exact sound_unlessExpired hr hres fun expired => sound_checkSession_none hr hres
  | resume offset =>
    cases record with
    | none => exact sound_answer (reads_notFound hr hres)
    | some checkpoint =>
      refine sound_unlessExpired hr hres fun expired => ?_
      refine sound_checkSession_some hr hres ?_ (hrc checkpoint rfl)
      rw [hm]
      rfl

/-- A conflict with the target before anything is written. -/
theorem reads_conflictState (hrc : Recorded r record) {code : ErrorCode} :
    (problem c res (conflictState record) (some r.uploadLength)
      (record.map UploadCheckpoint.durableOffset) 409 code).Reads r.mode.phase c.uploadId
      r.uploadLength := by
  cases record with
  | none =>
    refine reads_problem hr hres.length ⟨rfl, ?_⟩ (mem_matrix (by decide) (by decide)) (by decide)
      nofun
    rw [hres.offset]
    exact nofun
  | some checkpoint =>
    obtain ⟨hw, hl⟩ := hrc checkpoint rfl
    have ho : checkpoint.durableOffset ≤ r.uploadLength := hl ▸ hw.offset
    have hd : (problem c res .notStarted (some r.uploadLength)
        (some checkpoint.durableOffset) 409 code).Reads r.mode.phase c.uploadId r.uploadLength := by
      refine reads_problem hr hres.length ⟨rfl, ?_⟩ (mem_matrix (by decide) (by decide))
        (by decide) nofun
      rintro n ⟨⟩
      exact ho
    simp only [conflictState, Option.map_some]
    cases checkpoint.state with
    | running =>
      exact reads_held hr hres.length (.inl rfl) ho (mem_matrix (by decide) (by decide)) (by decide)
    | awaitingConfirmation =>
      exact reads_held hr hres.length (.inr rfl) ho (mem_matrix (by decide) (by decide)) (by decide)
    | committed | rejected | unknown => exact hd

theorem sound_inspectTarget (hrc : Recorded r record) :
    Sound c r expired (inspectTarget c r res record) := by
  have hc : Sound c r expired (targetConflict c res (conflictState record)
      (some r.uploadLength) (record.map UploadCheckpoint.durableOffset)) :=
    (beyond hr hres).targetConflict fun _ => reads_conflictState hr hres hrc
  refine sound_call (fun _ => rfl) fun fid hid => ?_
  rcases fid with fail | fid
  · exact sound_fail (ne_conflict hid.1) hres.offset
  cases r.overwrite with
  | noReplace =>
    simp only
    split
    · exact sound_answer (reads_conflictState hr hres hrc)
    split
    · rename_i ha
      cases record with
      | none => exact nomatch ha
      | some checkpoint =>
        obtain ⟨hw, hl⟩ := hrc checkpoint rfl
        exact sound_answer (reads_held hr hres.length (.inr rfl) (hl ▸ hw.offset)
          (mem_matrix (by decide) (by decide)) (by decide))
    · exact sound_afterInspection hr hres hrc
  | ifUnchanged want =>
    simp only
    split
    · exact hc
    refine sound_call (fun _ => rfl) fun t ht => ?_
    rcases t with (_ | fail) | ⟨fid, metadata⟩
    · exact hc
    · exact sound_fail (ne_conflict ht.1) hres.offset
    show Sound c r expired (if _ then _ else _)
    split
    · exact hc
    · exact sound_afterInspection hr hres hrc

theorem sound_trackResumed (hrc : Recorded r record) :
    Sound c r expired (trackResumed c r res record) := by
  unfold trackResumed
  split
  · refine sound_track (sound_answerExpired hr hres) fun tracked ht => ?_
    rcases tracked with err | tracked
    · cases err with
      | notFound | notADirectory => exact sound_answer (reads_notFound hr hres)
      | timedOut => exact absurd rfl ht
      | other => exact sound_fail (by decide) hres.offset
    · exact sound_unlessExpired hr hres fun expired => sound_inspectTarget hr hres hrc
  · exact sound_inspectTarget hr hres hrc

theorem sound_admitFound {record : UploadCheckpoint} (hw : record.WellFormed)
    (hl : record.uploadLength = r.uploadLength) :
    Sound c r expired (admitFound c r res record) := by
  have ho : record.durableOffset ≤ r.uploadLength := hl ▸ hw.offset
  have hrc : Recorded r (some record) := by
    rintro checkpoint ⟨⟩
    exact ⟨hw, hl⟩
  have hh (state : UploadPublicState) (hs : state = .running ∨ state = .awaitingConfirmation)
      (code : ErrorCode) : (problem c res state (some r.uploadLength) (some record.durableOffset)
        409 code).Reads r.mode.phase c.uploadId r.uploadLength := by
    obtain rfl | rfl := hs
    · exact reads_held hr hres.length (.inl rfl) ho (mem_matrix (by decide) (by decide)) (by decide)
    · exact reads_held hr hres.length (.inr rfl) ho (mem_matrix (by decide) (by decide)) (by decide)
  cases hs : record.state with
  | committed =>
    have hc : record.durableOffset = r.uploadLength :=
      (hw.complete (.inl hs)).trans hl
    simp only [admitFound, hs, hl, hc]
    have hst : 200 ∈ uploadResponseStatusMatrix r.mode.phase .committed :=
      mem_matrix (by decide) (by decide)
    have hcs : 200 ≠ 403 := by decide
    refine sound_answer ⟨.committed, rfl, fun csrfRejected => ?_⟩
    exact kind_eq_declared hr.length rfl rfl ⟨rfl, rfl⟩ hst hcs phase_ne_discard nofun
  | rejected =>
    simp only [admitFound, hs, hl]
    refine sound_answer (reads_rejected hr hres ?_ (by decide))
    rintro n ⟨⟩
    exact ho
  | running =>
    simp only [admitFound, hs, hl]
    split
    · exact sound_trackResumed hr hres hrc
    · exact sound_answer (hh _ (.inl rfl) _)
  | awaitingConfirmation =>
    simp only [admitFound, hs, hl]
    split
    · exact (beyond hr hres).targetConflict fun _ => hh _ (.inr rfl) _
    split
    · exact sound_answer (hh _ (.inr rfl) _)
    split
    · exact sound_answer (hh _ (.inr rfl) _)
    · exact sound_trackResumed hr hres hrc
  | unknown =>
    simp only [admitFound, hs, hl]
    refine sound_answer (reads_problem hr hres.length ⟨?_, ?_⟩ (mem_matrix (by decide) (by decide))
      (by decide) (by decide))
    · rintro n ⟨⟩
      rfl
    · rintro n ⟨⟩
      exact ho

theorem sound_prepareUpload : Sound c r expired (prepareUpload c r res) := by
  have hb : UploadResponse.Blank { res with uploadId := some c.uploadId } :=
    ⟨hres.length, hres.offset⟩
  refine sound_unlessExpired hr hb fun expired => ?_
  refine sound_call (fun _ => rfl) fun lookup hlk => ?_
  rcases lookup with fail | lookup
  · exact sound_fail (ne_conflict hlk.1) hres.offset
  cases lookup with
  | foreignOwner => exact sound_answer (reads_notFound hr hb)
  | found record => exact sound_admitFound hr hb hlk.2.1 hlk.2.2
  | notSeen =>
    show Sound c r expired (if _ then _ else _)
    split
    · exact sound_answer (reads_rejected hr hb nofun (by decide))
    · exact sound_trackResumed hr hb nofun

end

theorem sound_renderStoreProblem (hr : r.Representable)
    (h : agreementEnds r.mode.phase c.uploadId r.uploadLength expired handled) :
    Sound c r expired (renderStoreProblem c r handled) := by
  obtain ⟨resp, result⟩ := handled
  rcases result with fail | result
  · have hu (code : ErrorCode) : (resp.problem
        ⟨c.uploadId, .unknown, some r.uploadLength, r.mode.offset⟩ 503 code).Reads r.mode.phase
          c.uploadId r.uploadLength := by
      have hs : 503 ∈ uploadResponseStatusMatrix r.mode.phase .unknown :=
        mem_matrix (by decide) (by decide)
      have hc : 503 ≠ 403 := by decide
      refine ⟨.unknown, rfl, fun csrfRejected => ?_⟩
      refine kind_eq_declared hr.length rfl rfl ⟨?_, ?_⟩ hs hc phase_ne_discard nofun
      · rintro n ⟨⟩
        rfl
      · show ∀ n, r.mode.offset.or resp.offset = some n → n ≤ r.uploadLength
        rw [h.2, Option.or_none]
        exact hr.offset
    cases fail with
    | dispatch | full => exact sound_answer (hu _)
    | conflict => exact absurd rfl h.1
    | timedOut | other => exact sound_fail h.1 h.2
  · exact h

/-- Under answers as `agreement` has them, the browser reads what `handle_upload` returns. -/
theorem handleUpload_sound (hr : r.Representable) : Sound c r false (handleUpload c r .default) :=
  (sound_prepareUpload hr ⟨rfl, rfl⟩).bind fun _ _ h => sound_renderStoreProblem hr h

/-! ## Queries -/

theorem reads_query {uploadId : Uuid} {resp : UploadResponse} (status : ℕ)
    (state : UploadPublicState) (hsf : length ≤ maxSafeInteger)
    (hm : status ∈ uploadResponseStatusMatrix .checkpoint state)
    (hid : resp.uploadId = some uploadId) (hs : resp.state = some state)
    (hst : resp.status = status) (hf : state.Fits length resp.length resp.offset)
    (hl : status = 429 → resp.length = none ∧ resp.offset = none) :
    resp.Reads .checkpoint uploadId length := by
  obtain rfl := hst
  refine ⟨state, hs, fun csrfRejected => ?_⟩
  refine kind_eq_declared hsf hid hs hf hm ?_ nofun fun h429 _ => hl h429
  intro hc
  rw [hc] at hm
  cases state <;> exact absurd hm (by decide)

theorem handleUploadStatus_reads (hsf : length ≤ maxSafeInteger)
    (h : (handleUploadStatus c .default).Returns (UploadCall.plain length) handled)
    (hok : handled.result = .ok ()) : handled.response.Reads .checkpoint c.uploadId length := by
  obtain ⟨lookup, hlk, h⟩ := Prog.returns_call.mp h
  rcases lookup with fail | lookup
  · have hu (code : ErrorCode) : (UploadResponse.default.problem
        ⟨c.uploadId, .unknown, none, none⟩ 503 code).Reads .checkpoint c.uploadId length :=
      reads_query 503 .unknown hsf (by decide) rfl rfl rfl ⟨nofun, nofun⟩ nofun
    cases fail with
    | dispatch | full =>
      obtain rfl := Prog.returns_done.mp h
      exact hu _
    | conflict => exact absurd rfl hlk.1
    | timedOut | other =>
      obtain rfl := Prog.returns_done.mp h
      exact nomatch hok
  have hns (hrt : (answer ({ UploadResponse.default with status := 404 }.recordHeaders
      ⟨c.uploadId, .notSeen, none, none⟩)).Returns (UploadCall.plain length) handled) :
      handled.response.Reads .checkpoint c.uploadId length := by
    obtain rfl := Prog.returns_done.mp hrt
    exact reads_query 404 .notSeen hsf (by decide) rfl rfl rfl ⟨rfl, rfl⟩ nofun
  cases lookup with
  | notSeen | foreignOwner => exact hns h
  | found record =>
    obtain ⟨-, hw, rfl⟩ := hlk
    cases hs : record.state with
    | running =>
      simp only [hs] at h
      obtain rfl := Prog.returns_done.mp h
      exact reads_query 200 .running hsf (by decide) rfl rfl rfl
        ⟨rfl, record.durableOffset, hw.offset, rfl⟩ nofun
    | awaitingConfirmation =>
      simp only [hs] at h
      obtain ⟨fid, -, h⟩ := Prog.returns_call.mp h
      rcases fid with fail | fid
      · obtain rfl := Prog.returns_done.mp h
        exact nomatch hok
      · obtain rfl := Prog.returns_done.mp h
        exact reads_query 409 .awaitingConfirmation hsf (by decide) rfl rfl rfl
          ⟨rfl, record.durableOffset, hw.offset, rfl⟩ nofun
    | committed =>
      simp only [hs] at h
      obtain rfl := Prog.returns_done.mp h
      exact reads_query 200 .committed hsf (by decide) rfl rfl rfl
        ⟨rfl, congrArg some (hw.complete (.inl hs))⟩ nofun
    | rejected =>
      simp only [hs] at h
      obtain rfl := Prog.returns_done.mp h
      refine reads_query 409 .rejected hsf (by decide) rfl rfl rfl ⟨rfl, ?_⟩ nofun
      rintro n ⟨⟩
      exact hw.offset
    | unknown =>
      simp only [hs] at h
      obtain rfl := Prog.returns_done.mp h
      refine reads_query 500 .unknown hsf (by decide) rfl rfl rfl ⟨?_, ?_⟩ nofun
      · rintro n ⟨⟩
        rfl
      · rintro n ⟨⟩
        exact hw.offset

/-- The browser reads every response to a query. -/
theorem dispatchUploadStatus_reads (hs : length ≤ maxSafeInteger) {admitted : Bool}
    (h : (dispatchUploadStatus c .default admitted).Returns (UploadCall.plain length) handled)
    (hok : handled.result = .ok ()) : handled.response.Reads .checkpoint c.uploadId length := by
  cases admitted with
  | true => exact handleUploadStatus_reads hs h hok
  | false =>
    obtain rfl := Prog.returns_done.mp h
    exact reads_query 429 .unknown hs (by decide) rfl rfl rfl ⟨nofun, nofun⟩ fun _ => ⟨rfl, rfl⟩

end Handler

end DufsRam.Upload
