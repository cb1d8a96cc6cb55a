import DufsRam.PathCoordinator.Conflict
import DufsRam.StateStore.Operation

/-!
# Upload sessions in the state store

Model of the transactions on the table `upload_sessions` (`state_store/upload.rs`) that an
upload request runs, and of what recovery does to the table (`database.rs`, lines
1492-1513). Stored paths are canonical; their validation is not modelled.

Results:
* `merges_of_mergeUploadSession`: what a session keeps when it is overwritten.
* `saveUploadSession_outcome`: what one save does to the table.
-/

namespace DufsRam.StateStore

/-- `UploadSessionKey` (`model.rs`, lines 122-126). -/
structure UploadSessionKey where
  owner : Digest
  id : Uuid
deriving DecidableEq

/-- `StoredUploadState` (`model.rs`, lines 134-143). -/
inductive StoredUploadState where
  | running
  | commitStarted
  | committed
  | rejected
  | unknown
  | awaitingConfirmation
deriving DecidableEq

/-- `is_terminal` (`model.rs`, lines 158-160). -/
def StoredUploadState.isTerminal : StoredUploadState → Bool
  | .committed | .rejected | .unknown => true
  | .running | .commitStarted | .awaitingConfirmation => false

/-- `StoredUploadSession` (`model.rs`, lines 163-173) without its key. `π` is the type of
    stored paths. -/
structure StoredUploadSession (π : Type) where
  targetPath : π
  stagePath : π
  uploadLength : ℕ
  durableOffset : ℕ
  state : StoredUploadState
  stageIdentity : Option FileIdentity
  targetRevision : Option Digest
deriving DecidableEq

/-- A row of `upload_sessions`. -/
structure UploadRow (π : Type) where
  session : StoredUploadSession π
  expiresAtMs : ℤ
deriving DecidableEq

abbrev UploadSessions (π : Type) := Table UploadSessionKey (UploadRow π)

/-- `StoreUploadSession` (`model.rs`, lines 224-231). -/
inductive StoreUploadSession where
  | inserted
  | updated
  | unchanged
  | conflict
  | full
deriving DecidableEq

/-- The fields of `Limits` that upload sessions read (`state_store.rs`, lines 212-221). -/
structure UploadLimits where
  uploadCapacity : ℕ
  uploadPerOwner : ℕ
  uploadTtlMs : ℤ

variable {π : Type} [DecidableEq π]

/-- `StoredUploadSession::validate` (`model.rs`, lines 189-222). -/
def StoredUploadSession.validate (session : StoredUploadSession π) : Except String Unit := do
  ensure (session.targetPath ≠ session.stagePath) "Upload target and stage paths must differ"
  ensure (session.durableOffset ≤ session.uploadLength)
    "Upload durable offset exceeds its declared length"
  ensure (session.uploadLength < 2 ^ 63) "Upload length cannot be represented by SQLite"
  match session.state with
  | .commitStarted | .committed | .awaitingConfirmation =>
    ensure (session.durableOffset = session.uploadLength)
      "A committing or committed upload must be fully durable"
  | .running | .rejected | .unknown => .ok ()

/-! ## Merging a proposed session -/

/-- The transitions between different states (lines 391-408). -/
def transitionAllowed : StoredUploadState → StoredUploadState → Bool
  | .running, .commitStarted | .running, .rejected | .running, .unknown => true
  | .commitStarted, .committed | .commitStarted, .rejected | .commitStarted, .unknown
  | .commitStarted, .awaitingConfirmation => true
  | .awaitingConfirmation, .commitStarted | .awaitingConfirmation, .rejected => true
  | _, _ => false

/-- `merge_upload_session` (lines 368-418); both sessions have one key. -/
def mergeUploadSession (existing proposed : StoredUploadSession π) :
    Option (StoredUploadSession π) :=
  if existing.targetPath ≠ proposed.targetPath ∨ existing.stagePath ≠ proposed.stagePath ∨
      existing.uploadLength ≠ proposed.uploadLength ∨
      proposed.durableOffset < existing.durableOffset ∨
      (existing.stageIdentity.isSome ∧ proposed.stageIdentity.isSome ∧
        existing.stageIdentity ≠ proposed.stageIdentity) ∨
      (existing.stageIdentity.isSome ∧ proposed.stageIdentity.isNone) then none
  else
    let transition : Bool :=
      if existing.state = proposed.state then
        !existing.state.isTerminal ||
          decide (existing.durableOffset = proposed.durableOffset) &&
            decide (existing.stageIdentity = proposed.stageIdentity)
      else transitionAllowed existing.state proposed.state
    let revisionChange : Bool :=
      decide (existing.targetRevision = proposed.targetRevision) ||
        decide (existing.state = proposed.state) && !existing.state.isTerminal ||
        decide (existing.state = .awaitingConfirmation)
    if transition && revisionChange then some proposed else none

/-- What a stored session and the one that overwrites it have in common. -/
structure Merges (existing proposed : StoredUploadSession π) : Prop where
  targetPath : existing.targetPath = proposed.targetPath
  stagePath : existing.stagePath = proposed.stagePath
  uploadLength : existing.uploadLength = proposed.uploadLength
  durableOffset : existing.durableOffset ≤ proposed.durableOffset
  stageIdentity : existing.stageIdentity.isSome → proposed.stageIdentity = existing.stageIdentity
  transition : existing.state = proposed.state ∧ (existing.state.isTerminal = true →
      existing.durableOffset = proposed.durableOffset ∧
        existing.stageIdentity = proposed.stageIdentity) ∨
    transitionAllowed existing.state proposed.state = true
  targetRevision : existing.targetRevision = proposed.targetRevision ∨
    (existing.state = proposed.state ∧ existing.state.isTerminal = false) ∨
    existing.state = .awaitingConfirmation

variable {proposed : StoredUploadSession π} {row : UploadRow π} {now : ℤ}
  {sessions t : UploadSessions π} {key : UploadSessionKey} {limits : UploadLimits}
  {result : StoreUploadSession}

/-- A session is overwritten by the proposed one or not at all. -/
theorem merges_of_mergeUploadSession {old stored : StoredUploadSession π}
    (h : mergeUploadSession old proposed = some stored) :
    stored = proposed ∧ Merges old proposed := by
  unfold mergeUploadSession at h
  by_cases hb : old.targetPath ≠ proposed.targetPath ∨
      old.stagePath ≠ proposed.stagePath ∨
      old.uploadLength ≠ proposed.uploadLength ∨
      proposed.durableOffset < old.durableOffset ∨
      (old.stageIdentity.isSome ∧ proposed.stageIdentity.isSome ∧
        old.stageIdentity ≠ proposed.stageIdentity) ∨
      (old.stageIdentity.isSome ∧ proposed.stageIdentity.isNone)
  · rw [if_pos hb] at h; cases h
  rw [if_neg hb] at h
  simp only [not_or, not_not, not_lt, not_and] at hb
  obtain ⟨htg, hst, hl, ho, hid, hk⟩ := hb
  simp only [Option.ite_none_right_eq_some, Option.some.injEq, Bool.and_eq_true] at h
  obtain ⟨⟨htr, hr⟩, rfl⟩ := h
  refine ⟨rfl, htg, hst, hl, ho, fun hsm => ?_, ?_, ?_⟩
  · have hp : proposed.stageIdentity.isSome = true := by
      simpa [Option.isSome_iff_ne_none] using hk hsm
    exact (hid hsm hp).symm
  · by_cases hs : old.state = proposed.state
    · rw [if_pos hs] at htr
      refine Or.inl ⟨hs, fun ht => ?_⟩
      simpa [ht] using htr
    · rw [if_neg hs] at htr
      exact Or.inr htr
  · simpa [or_assoc] using hr

/-! ## The transactions -/

/-- The rows that a save deletes first (lines 63-77). -/
def UploadRow.isExpired (row : UploadRow π) (now : ℤ) : Bool :=
  decide (row.expiresAtMs ≤ now) &&
    (decide (row.session.state = .committed) || decide (row.session.state = .unknown) ||
      decide (row.session.state = .rejected) && row.session.stageIdentity.isNone)

/-- The table after a save has deleted the expired rows. -/
def swept (sessions : UploadSessions π) (now : ℤ) : UploadSessions π :=
  sessions.deleteWhere fun _ row => row.isExpired now

/-- `conflicting_stage` (lines 80-96): another session owns the stage path. -/
def conflictingStage (sessions : UploadSessions π) (key : UploadSessionKey) (stagePath : π) :
    Bool :=
  sessions.any fun key' row => decide (row.session.stagePath = stagePath) &&
    !row.session.state.isTerminal && decide (key' ≠ key)

/-- `save_upload_session` (lines 53-171), with the validation of its caller
    (`state_store.rs`, line 681). -/
def saveUploadSession (limits : UploadLimits) (now : ℤ) (sessions : UploadSessions π)
    (key : UploadSessionKey) (proposed : StoredUploadSession π) :
    Except String (StoreUploadSession × UploadSessions π) := do
  proposed.validate
  let expiresAt ← expirationTime now limits.uploadTtlMs
  let sessions := swept sessions now
  if !proposed.state.isTerminal && conflictingStage sessions key proposed.stagePath then
    return (.conflict, sessions)
  match sessions.get key with
  | none =>
    if limits.uploadCapacity ≤ sessions.countWhere (fun _ _ => true) ∨
        limits.uploadPerOwner ≤ sessions.countWhere (fun key' _ => decide (key'.owner = key.owner))
    then return (.full, sessions)
    else return (.inserted, sessions.put key ⟨proposed, expiresAt⟩)
  | some existing =>
    match mergeUploadSession existing.session proposed with
    | none => return (.conflict, sessions)
    | some stored =>
      return (if stored = existing.session then .unchanged else .updated,
        sessions.put key ⟨stored, expiresAt⟩)

/-- `remove_upload_session_if_matches` (lines 304-331). -/
def removeUploadSessionIfMatches (sessions : UploadSessions π) (key : UploadSessionKey)
    (expected : StoredUploadSession π) : Bool × UploadSessions π :=
  if (sessions.get key).map UploadRow.session = some expected then (true, sessions.erase key)
  else (false, sessions)

/-- `RejectUploadSession` (`model.rs`, lines 181-187). -/
inductive RejectUploadSession (π : Type) where
  | notFound
  | bindingConflict
  | stateConflict (session : StoredUploadSession π)
  | rejected (session : StoredUploadSession π)
deriving DecidableEq

/-- `reject_upload_session` (lines 241-302). The source makes its checks before the
    transaction and again in it; nothing runs in between. -/
def rejectUploadSession (ttlMs now : ℤ) (sessions : UploadSessions π) (key : UploadSessionKey)
    (targetPath stagePath : π) : Except String (RejectUploadSession π × UploadSessions π) :=
  match sessions.get key with
  | none => .ok (.notFound, sessions)
  | some ⟨session, _⟩ =>
    if session.targetPath ≠ targetPath ∨ session.stagePath ≠ stagePath then
      .ok (.bindingConflict, sessions)
    else if session.state = .rejected then .ok (.rejected session, sessions)
    else if session.state ≠ .awaitingConfirmation then .ok (.stateConflict session, sessions)
    else
      (expirationTime now ttlMs).map fun expiresAt =>
        let session := { session with state := .rejected }
        (.rejected session, sessions.put key ⟨session, expiresAt⟩)

/-- `remove_expired_upload_session_if_matches` (lines 333-365). An `ExpiredUploadSession` is a
    row. -/
def removeExpiredUploadSessionIfMatches (now : ℤ) (sessions : UploadSessions π)
    (key : UploadSessionKey) (expected : UploadRow π) : Bool × UploadSessions π :=
  if now < expected.expiresAtMs ∨ sessions.get key ≠ some expected then (false, sessions)
  else (true, sessions.erase key)

/-- What those of `recover_database` make of a row. -/
def UploadRow.recover (row : UploadRow π) (expiresAt : ℤ) : UploadRow π :=
  if row.session.state = .commitStarted then
    { session := { row.session with state := .unknown }, expiresAtMs := expiresAt }
  else { row with expiresAtMs := min row.expiresAtMs expiresAt }

/-- The statements of `recover_database` on `upload_sessions` (`database.rs`, lines
    1492-1513). -/
def recoverUploadSessions (limits : UploadLimits) (now : ℤ) (sessions : UploadSessions π) :
    Except String (UploadSessions π) :=
  (expirationTime now limits.uploadTtlMs).map fun expiresAt =>
    (sessions.updateWhere (fun _ row => decide (row.session.state = .commitStarted))
      fun row => { session := { row.session with state := .unknown }, expiresAtMs := expiresAt }
      ).updateWhere (fun _ row => decide (expiresAt < row.expiresAtMs))
      fun row => { row with expiresAtMs := expiresAt }

/-! ## What a save does -/

omit [DecidableEq π] in
/-- Only terminal sessions expire. -/
theorem isTerminal_of_isExpired (h : row.isExpired now = true) :
    row.session.state.isTerminal = true := by
  simp only [UploadRow.isExpired, Bool.and_eq_true, Bool.or_eq_true, decide_eq_true_iff] at h
  obtain ⟨-, (hs | hs) | ⟨hs, -⟩⟩ := h <;> rw [hs] <;> rfl

omit [DecidableEq π] in
theorem get_of_get_swept (h : (swept sessions now).get key = some row) :
    sessions.get key = some row := by
  rw [swept, Table.get_deleteWhere] at h
  obtain ⟨row', hr', hif⟩ := Option.bind_eq_some_iff.mp h
  split_ifs at hif
  rw [hr', Option.some.inj hif]

omit [DecidableEq π] in
/-- A session that is not terminal survives the sweep. -/
theorem get_swept (h : sessions.get key = some row) (hl : row.session.state.isTerminal = false) :
    (swept sessions now).get key = some row := by
  have he : row.isExpired now = false := by
    by_contra hne
    rw [isTerminal_of_isExpired (by simpa using hne)] at hl
    cases hl
  rw [swept, Table.get_deleteWhere, h, Option.bind_some, if_neg (by simp [he])]

/-- What a save has checked when it stores a session. -/
structure Admitted (sessions : UploadSessions π) (key : UploadSessionKey)
    (proposed : StoredUploadSession π) : Prop where
  offset : proposed.durableOffset ≤ proposed.uploadLength
  complete : proposed.state = .commitStarted ∨ proposed.state = .awaitingConfirmation →
    proposed.durableOffset = proposed.uploadLength
  alone : proposed.state.isTerminal = false → ∀ key' row, sessions.get key' = some row →
    row.session.stagePath = proposed.stagePath → row.session.state.isTerminal = false →
    key' = key
  merges : ∀ row, sessions.get key = some row → Merges row.session proposed

/-- `StoreUploadSession::{Inserted, Updated, Unchanged}`: the answers of a save that stored
    the session. -/
def StoreUploadSession.stored : StoreUploadSession → Bool
  | .inserted | .updated | .unchanged => true
  | .conflict | .full => false

omit [DecidableEq π] in
theorem ensure_bind_eq_ok {α : Type} {p : Prop} [Decidable p] {msg : String}
    {next : Except String α} {a : α} :
    (ensure p msg >>= fun _ => next) = .ok a ↔ p ∧ next = .ok a := by
  by_cases hp : p <;> simp [ensure, hp, bind, Except.bind]

theorem validate_eq_ok (h : proposed.validate = .ok ()) :
    proposed.durableOffset ≤ proposed.uploadLength ∧
      (proposed.state = .commitStarted ∨ proposed.state = .awaitingConfirmation →
        proposed.durableOffset = proposed.uploadLength) := by
  rw [StoredUploadSession.validate, ensure_bind_eq_ok, ensure_bind_eq_ok, ensure_bind_eq_ok] at h
  obtain ⟨-, ho, -, hc⟩ := h
  refine ⟨ho, fun hs => ?_⟩
  by_contra hne
  obtain hs | hs := hs <;> simp [hs, ensure, hne] at hc

/-- A save sweeps the table, and stores the proposed session with its expiration or leaves the
    rest alone. It inserts a session only while there is room for it. -/
theorem saveUploadSession_outcome
    (h : saveUploadSession limits now sessions key proposed = .ok (result, t)) :
    (result.stored = false ∧ t = swept sessions now) ∨
      (result.stored = true ∧ ∃ exp, expirationTime now limits.uploadTtlMs = .ok exp ∧
        t = (swept sessions now).put key ⟨proposed, exp⟩ ∧
        Admitted (swept sessions now) key proposed ∧
        ((swept sessions now).get key = none →
          (swept sessions now).countWhere (fun _ _ => true) < limits.uploadCapacity ∧
          (swept sessions now).countWhere (fun key' _ => decide (key'.owner = key.owner)) <
            limits.uploadPerOwner)) := by
  unfold saveUploadSession at h
  cases hv : proposed.validate with
  | error e => rw [hv] at h; cases h
  | ok u =>
  cases ht : expirationTime now limits.uploadTtlMs with
  | error e => rw [hv, ht] at h; cases h
  | ok exp =>
  obtain ⟨ho, hcm⟩ := validate_eq_ok hv
  simp only [hv, ht, bind, Except.bind, pure, Except.pure] at h
  by_cases hc : (!proposed.state.isTerminal &&
      conflictingStage (swept sessions now) key proposed.stagePath) = true
  · rw [if_pos hc] at h
    cases h
    exact Or.inl ⟨rfl, rfl⟩
  rw [if_neg hc] at h
  have ha : proposed.state.isTerminal = false → ∀ key' row,
      (swept sessions now).get key' = some row → row.session.stagePath = proposed.stagePath →
      row.session.state.isTerminal = false → key' = key := by
    intro hl key' row hr hp hs
    have hn : conflictingStage (swept sessions now) key proposed.stagePath = false := by
      simpa [hl] using hc
    simpa [hp, hs] using Table.any_eq_false_iff.mp hn key' row hr
  cases hg : (swept sessions now).get key with
  | none =>
    simp only [hg] at h
    split_ifs at h with hf
    · cases h
      exact Or.inl ⟨rfl, rfl⟩
    · cases h
      rw [not_or, not_le, not_le] at hf
      exact Or.inr ⟨rfl, exp, rfl, rfl, ⟨ho, hcm, ha, by simp [hg]⟩, fun _ => hf⟩
  | some old =>
    simp only [hg] at h
    cases hm : mergeUploadSession old.session proposed with
    | none =>
      simp only [hm] at h
      cases h
      exact Or.inl ⟨rfl, rfl⟩
    | some stored =>
      obtain ⟨rfl, hmr⟩ := merges_of_mergeUploadSession hm
      simp only [hm] at h
      cases h
      refine Or.inr ⟨by split_ifs <;> rfl, exp, rfl, rfl, ⟨ho, hcm, ha, ?_⟩, by simp⟩
      rintro row hr
      rw [hg] at hr
      cases hr
      exact hmr

end DufsRam.StateStore
