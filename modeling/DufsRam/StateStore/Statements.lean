import DufsRam.StateStore.Outcome
import DufsRam.StateStore.PurgeHistory
import DufsRam.StateStore.UploadHistory

/-!
# What the statements of the store write

The life of one row of `upload_sessions` and of `purge_jobs`: every statement that inserts, changes or
removes it, with the columns it sets. A statement whose row fails a `CHECK` constraint is an error, and
so is a row that a call cannot read back; both leave the row as it was. The other rows of a table
decide only whether an insertion is blocked. The columns that the store writes hold a row of the
typed tables, and a statement on them does to it what a command does there.

Results:
* `held_of_reachable`: every row that is written holds a typed row, if every statement keeps to it.
* `uploadStatement_refines`, `purgeStatement_refines`: on columns that hold a typed row, a statement is
  refused because of its arguments or leaves columns of what the typed row becomes.
* `saveUpload_cases`, `preparePurge_cases`: what is loaded after a statement.
* `readyPurge_ofValue`, `claimPurge_ofValue`, `retryPurge_ofValue`: what these write.
* `UploadRecord.Holds.recover`, `PurgeRecord.Holds.recover`: the recovery of columns and of typed rows.
-/

namespace DufsRam.StateStore

/-- Why a call fails. -/
inductive Fault where
  | refused (message : String)
  | constraint
  | unreadable (message : String)
deriving DecidableEq

section Rows

variable {ρ τ σ α : Type}

/-- The row after a statement, if it passes the constraints. -/
def checked (checks : List Sql.Truth) (r : ρ) : Except Fault (Option ρ) :=
  if satisfies checks then .ok (some r) else .error .constraint

/-- The value of a row. -/
def loaded (decode : ρ → Except String α) : Option ρ → Except Fault (Option α)
  | none => .ok none
  | some r =>
    match decode r with
    | .ok v => .ok (some v)
    | .error message => .error (.unreadable message)

/-- The life of a row. A statement that fails changes nothing. -/
def rowMachine (statement : Option ρ → σ → Except Fault (Option ρ)) : Machine (Option ρ) σ where
  init := none
  step row st :=
    match statement row st with
    | .ok row' => some row'
    | .error _ => some row

/-- The results of a statement that fails only because of its arguments, and that otherwise leaves
    columns of a typed row, or none, which the typed row before has become. -/
inductive Refines (Holds : ρ → τ → Prop) (Becomes : Option τ → Prop) :
    Except Fault (Option ρ) → Prop
  | refused (message : String) : Refines Holds Becomes (.error (.refused message))
  | row {row : Option ρ} {entry : Option τ} (h : Option.Rel Holds row entry)
      (hb : Becomes entry) : Refines Holds Becomes (.ok row)

/-- What a row that stays becomes. -/
def Between (R : τ → τ → Prop) (before after : Option τ) : Prop :=
  ∀ a b, before = some a → after = some b → R a b

section Between

variable {R : τ → τ → Prop}

theorem Between.of_none (after : Option τ) : Between R none after := by
  rintro a b ⟨⟩

theorem Between.to_none (before : Option τ) : Between R before none := by
  rintro a b - ⟨⟩

theorem Between.some {a b : τ} (h : R a b) : Between R (some a) (some b) := by
  rintro _ _ ⟨⟩ ⟨⟩
  exact h

theorem Between.refl (h : ∀ a, R a a) (entry : Option τ) : Between R entry entry := by
  rintro a b rfl ⟨⟩
  exact h a

end Between

variable {Holds : ρ → τ → Prop} {Step : σ → Option τ → Option τ → Prop}
  {stmt : Option ρ → σ → Except Fault (Option ρ)}
  (hr : ∀ row entry st, Option.Rel Holds row entry → Refines Holds (Step st entry) (stmt row st))

include hr

/-- Every row that the store writes holds a typed row. -/
theorem held_of_reachable {ok : Option ρ → σ → Prop} {row : Option ρ}
    (h : (rowMachine stmt).Reachable ok row) : ∃ entry, Option.Rel Holds row entry := by
  induction h with
  | init => exact ⟨none, .none⟩
  | @step row row' st _ _ hs ih =>
    obtain ⟨entry, he⟩ := ih
    have hrf := hr row entry st he
    simp only [rowMachine] at hs
    generalize stmt row st = result at hrf hs
    cases hrf with
    | refused msg =>
      rw [← Option.some.inj hs]
      exact ⟨entry, he⟩
    | row h =>
      rw [← Option.some.inj hs]
      exact ⟨_, h⟩

omit hr in
/-- Every row that the statements write passes the constraints and can be read, and no statement
    fails because of a constraint or of a row that it reads. -/
structure RowsExact (statement : Option ρ → σ → Except Fault (Option ρ))
    (checks : ρ → List Sql.Truth) (decode : ρ → Except String α) : Prop where
  rows : ∀ row, (rowMachine statement).Reachable (fun _ _ => True) row → ∀ r, row = some r →
    satisfies (checks r) = true ∧ ∃ v, decode r = .ok v
  faults : ∀ row, (rowMachine statement).Reachable (fun _ _ => True) row → ∀ st fault,
    statement row st = .error fault → ∃ message, fault = .refused message

theorem RowsExact.of_refines {checks : ρ → List Sql.Truth} {decode : ρ → Except String α}
    (hrd : ∀ r typed, Holds r typed → satisfies (checks r) = true ∧ ∃ v, decode r = .ok v) :
    RowsExact stmt checks decode := by
  refine ⟨fun row hrow r heq => ?_, fun row hrow st f hf => ?_⟩
  · obtain ⟨entry, he⟩ := held_of_reachable hr hrow
    subst heq
    cases he with
    | some hh => exact hrd r _ hh
  · obtain ⟨entry, he⟩ := held_of_reachable hr hrow
    have hrf := hr row entry st he
    rw [hf] at hrf
    cases hrf with
    | refused msg => exact ⟨msg, rfl⟩

end Rows

/-! ## Upload sessions -/

/-- The columns of a session key. -/
def UploadSessionKey.row (key : UploadSessionKey) : RowKey := .of key.owner key.id

/-- `load_upload_session` (`upload.rs`, lines 497-514). -/
def loadUpload (key : UploadSessionKey) : Option UploadRecord → Except Fault (Option UploadValue) :=
  loaded (decodeUploadRow key.row)

/-- The `DO UPDATE SET` list (`upload.rs`, lines 144-151). -/
def UploadRecord.upsert (r excluded : UploadRecord) : UploadRecord :=
  { r with
    durableOffset := excluded.durableOffset
    state := excluded.state
    stageDeviceBe := excluded.stageDeviceBe
    stageInodeBe := excluded.stageInodeBe
    targetRevision := excluded.targetRevision
    updatedAtMs := excluded.updatedAtMs
    expiresAtMs := excluded.expiresAtMs }

/-- `save_upload_session` on the row of its key (`upload.rs`, lines 53-171; `state_store.rs`, lines
    676-690). `conflicting` and `full` are the answers of the queries on the other rows. -/
def saveUpload (row : Option UploadRecord) (proposed : UploadValue) (conflicting full : Bool)
    (now expiresAt : ℤ) : Except Fault (StoreUploadSession × Option UploadRecord) :=
  match proposed.validate with
  | .error message => .error (.refused message)
  | .ok () =>
    match loadUpload proposed.key row with
    | .error fault => .error fault
    | .ok existing =>
      if !proposed.state.isTerminal && conflicting then .ok (.conflict, row)
      else
        let excluded := UploadRecord.ofValue proposed now expiresAt
        match row, existing with
        | some r, some existing =>
          if (mergeUploadSession existing.session proposed.session).isSome then
            (checked ((r.upsert excluded).checks proposed.key.row) (r.upsert excluded)).map
              (if existing.session = proposed.session then .unchanged else .updated, ·)
          else .ok (.conflict, row)
        | _, _ =>
          if full then .ok (.full, row)
          else (checked (excluded.checks proposed.key.row) excluded).map (.inserted, ·)

/-- A statement on the row of one key. `removeIfMatches` is one of the two removals that compare the
    row with an expected session (`upload.rs`, lines 304-365); `due` is the comparison of its times. -/
inductive UploadStatement where
  | save (proposed : UploadValue) (conflicting full : Bool) (now expiresAt : ℤ)
  | reject (targetPath stagePath : PathBuf) (now expiresAt : ℤ)
  | removeIfMatches (expected : UploadValue) (due : Bool)
  | sweep
  | recover (now expiresAt : ℤ)

/-- `reject_upload_session` (`upload.rs`, lines 241-302). -/
def rejectUpload (key : UploadSessionKey) (row : Option UploadRecord)
    (targetPath stagePath : PathBuf) (now expiresAt : ℤ) : Except Fault (Option UploadRecord) :=
  match row, loadUpload key row with
  | _, .error fault => .error fault
  | some r, .ok (some session) =>
    if session.targetPath.components = targetPath.components ∧
        session.stagePath.components = stagePath.components ∧
        session.state = .awaitingConfirmation ∧ r.state = 5 then
      let rejected := { r with state := 3, updatedAtMs := now, expiresAtMs := expiresAt }
      checked (rejected.checks key.row) rejected
    else .ok row
  | _, .ok _ => .ok row

/-- The statements of `recover_database` on `upload_sessions` (`database.rs`, lines 1492-1513). -/
def UploadRecord.recover (r : UploadRecord) (now expiresAt : ℤ) : UploadRecord :=
  let r := if r.state = 1 then { r with state := 4, updatedAtMs := now, expiresAtMs := expiresAt }
    else r
  if expiresAt < r.expiresAtMs then { r with expiresAtMs := expiresAt } else r

/-- The row of the key after a statement. -/
def uploadStatement (key : UploadSessionKey) (row : Option UploadRecord) :
    UploadStatement → Except Fault (Option UploadRecord)
  | .save proposed conflicting full now expiresAt =>
    if proposed.key = key then (saveUpload row proposed conflicting full now expiresAt).map Prod.snd
    else .ok row
  | .reject targetPath stagePath now expiresAt =>
    rejectUpload key row targetPath stagePath now expiresAt
  | .removeIfMatches expected due =>
    match expected.validate, loadUpload key row with
    | .error message, _ => .error (.refused message)
    | .ok (), .error fault => .error fault
    | .ok (), .ok session =>
      if due && decide (session.map UploadValue.session = some expected.session) then .ok none
      else .ok row
  | .sweep => .ok none
  | .recover now expiresAt =>
    match row with
    | none => .ok none
    | some r => checked ((r.recover now expiresAt).checks key.row) (r.recover now expiresAt)

/-- The columns of a valid session of the key, and the row of the typed table. -/
def UploadRecord.Holds (key : UploadSessionKey) (r : UploadRecord)
    (row : UploadRow (List Component)) : Prop :=
  ∃ v updatedAt expiresAt, UploadValue.Valid v ∧ v.key = key ∧ row = ⟨v.session, expiresAt⟩ ∧
    r = .ofValue v updatedAt expiresAt

/-- A session that stays is kept. -/
abbrev UploadStays :
    Option (UploadRow (List Component)) → Option (UploadRow (List Component)) → Prop :=
  Between fun a b => Keeps a.session b.session

section Upload

variable {key : UploadSessionKey} {row : Option UploadRecord}
  {entry : Option (UploadRow (List Component))}

theorem UploadStays.refl : UploadStays entry entry := Between.refl (fun _ => .refl _) entry

theorem UploadValue.Valid.holds {v : UploadValue} (h : v.Valid) (upd exp : ℤ) :
    (UploadRecord.ofValue v upd exp).Holds v.key ⟨v.session, exp⟩ :=
  ⟨v, upd, exp, h, rfl, rfl, rfl⟩

theorem UploadRecord.Holds.checked {r : UploadRecord} {typed : UploadRow (List Component)}
    (h : r.Holds key typed) : checked (r.checks key.row) r = .ok (some r) := by
  obtain ⟨v, upd, exp, hvalid, rfl, rfl, rfl⟩ := h
  exact if_pos (UploadRecord.satisfies_ofValue hvalid upd exp)

theorem loadUpload_ofValue {v : UploadValue} (h : v.Valid) (upd exp : ℤ) :
    loadUpload v.key (some (.ofValue v upd exp)) = .ok (some v) := by
  have hd := decodeUploadRow_ofValue h upd exp
  simp [loadUpload, loaded, UploadSessionKey.row, hd]

/-- The session of the row after an upsert: the paths keep their bytes. -/
def UploadValue.mergedInto (proposed existing : UploadValue) : UploadValue :=
  { proposed with
    targetPath := existing.targetPath
    stagePath := existing.stagePath }

section Upsert

variable {existing proposed : UploadValue}

theorem merges_of_isSome
    (h : (mergeUploadSession existing.session proposed.session).isSome = true) :
    Merges existing.session proposed.session := by
  obtain ⟨stored, hs⟩ := Option.isSome_iff_exists.mp h
  exact (merges_of_mergeUploadSession hs).2

theorem session_mergedInto (h : Merges existing.session proposed.session) :
    (proposed.mergedInto existing).session = proposed.session := by
  have ht : existing.targetPath.components = proposed.targetPath.components := h.targetPath
  have hs : existing.stagePath.components = proposed.stagePath.components := h.stagePath
  simp [UploadValue.session, UploadValue.mergedInto, ht, hs]

theorem valid_mergedInto (hex : existing.Valid) (hp : proposed.Valid) :
    (proposed.mergedInto existing).Valid :=
  ⟨hex.targetPath, hex.stagePath, hex.differ, hp.offset, hp.length,
    hp.complete⟩

theorem upsert_ofValue (h : Merges existing.session proposed.session)
    (upd exp now expiresAt' : ℤ) :
    (UploadRecord.ofValue existing upd exp).upsert (.ofValue proposed now expiresAt') =
      .ofValue (proposed.mergedInto existing) now expiresAt' := by
  have hl : existing.uploadLength.toNat = proposed.uploadLength.toNat := h.uploadLength
  simp [UploadRecord.upsert, UploadRecord.ofValue, UploadValue.mergedInto, hl]

end Upsert

/-- What a row holds after a session was saved: the session itself in a new row, and in an old one a
    session that is equal to it. -/
def Saved (row : Option UploadRecord) (proposed : UploadValue) (row' : Option UploadRecord) : Prop :=
  ∃ v, loadUpload proposed.key row' = .ok (some v) ∧ v.session = proposed.session ∧
    (row = none → v = proposed)

theorem saveUpload_cases {proposed : UploadValue}
    (hr : Option.Rel (UploadRecord.Holds proposed.key) row entry) (conf full : Bool) (now exp : ℤ) :
    (∃ msg, saveUpload row proposed conf full now exp = .error (.refused msg)) ∨
    ∃ a row' entry', saveUpload row proposed conf full now exp = .ok (a, row') ∧
      Option.Rel (UploadRecord.Holds proposed.key) row' entry' ∧ UploadStays entry entry' ∧
      (a.stored = true → Saved row proposed row') := by
  cases hv : proposed.validate with
  | error msg =>
    left
    exact ⟨msg, by simp [saveUpload, hv]⟩
  | ok =>
    right
    have hp := UploadValue.validate_eq_ok_iff.mp hv
    by_cases hb : (!proposed.state.isTerminal && conf) = true
    · refine ⟨.conflict, row, entry, ?_, hr, .refl, fun h => (nomatch h)⟩
      cases hr with
      | none => simp only [saveUpload, hv, loadUpload, loaded, if_pos hb]
      | some hh =>
        obtain ⟨v, upd, expires, hvalid, hk, rfl, rfl⟩ := hh
        have hl := hk ▸ loadUpload_ofValue hvalid upd expires
        simp only [saveUpload, hv, hl, if_pos hb]
    cases hr with
    | none =>
      cases full with
      | true =>
        refine ⟨.full, none, none, ?_, .none, .refl, fun h => (nomatch h)⟩
        simp only [saveUpload, hv, loadUpload, loaded, if_neg hb, if_true]
      | false =>
        have hh := hp.holds now exp
        refine ⟨.inserted, some (.ofValue proposed now exp), _, ?_, .some hh, .of_none _, fun _ => ?_⟩
        · simp only [saveUpload, hv, loadUpload, loaded, if_neg hb, hh.checked]
          rfl
        · exact ⟨proposed, loadUpload_ofValue hp now exp, rfl, fun _ => rfl⟩
    | some hh =>
      obtain ⟨existing, upd, expires, hex, hk, rfl, rfl⟩ := hh
      have hl := hk ▸ loadUpload_ofValue hex upd expires
      by_cases hm : (mergeUploadSession existing.session proposed.session).isSome = true
      · have hmr := merges_of_isSome hm
        have hu := upsert_ofValue hmr upd expires now exp
        have hvalid := valid_mergedInto hex hp
        have hh' : (UploadRecord.ofValue (proposed.mergedInto existing) now exp).Holds proposed.key
            ⟨proposed.session, exp⟩ := session_mergedInto hmr ▸ hvalid.holds now exp
        refine ⟨if existing.session = proposed.session then .unchanged else .updated,
          some (.ofValue (proposed.mergedInto existing) now exp), _, ?_, .some hh',
          .some (.of_merges hmr), fun _ => ?_⟩
        · simp only [saveUpload, hv, hl, if_neg hb, if_pos hm, hu, hh'.checked]
          rfl
        · exact ⟨_, loadUpload_ofValue hvalid now exp, session_mergedInto hmr, fun h => (nomatch h)⟩
      · refine ⟨.conflict, _, _, ?_, .some ⟨existing, upd, expires, hex, hk, rfl, rfl⟩, .refl,
          fun h => (nomatch h)⟩
        simp [saveUpload, hv, hl, if_neg hm]

/-- A session whose state allows every offset. -/
theorem UploadValue.Valid.with_state {v : UploadValue} (h : v.Valid) {state : StoredUploadState}
    (hs : state = .rejected ∨ state = .unknown) : UploadValue.Valid { v with state := state } := by
  refine ⟨h.targetPath, h.stagePath, h.differ, h.offset, h.length, fun hc => ?_⟩
  obtain rfl | rfl := hs <;> simp at hc

/-- The recovery of the columns is that of the typed row. -/
theorem UploadRecord.Holds.recover {r : UploadRecord} {typed : UploadRow (List Component)}
    (h : r.Holds key typed) (now exp : ℤ) : (r.recover now exp).Holds key (typed.recover exp) := by
  obtain ⟨v, upd, expires, hvalid, rfl, rfl, rfl⟩ := h
  have hs : (UploadRecord.ofValue v upd expires).state = 1 ↔
      v.session.state = .commitStarted := by
    simp only [UploadRecord.ofValue, UploadValue.session]
    cases v.state <;> decide
  by_cases hc : v.session.state = .commitStarted
  · simp only [UploadRecord.recover, if_pos (hs.mpr hc), lt_irrefl, if_false, UploadRow.recover,
      if_pos hc]
    exact (hvalid.with_state (.inr rfl)).holds now exp
  · simp only [UploadRecord.recover, if_neg (mt hs.mp hc), UploadRow.recover, if_neg hc]
    split_ifs with hl
    · rw [show min expires exp = exp from min_eq_right (le_of_lt hl)]
      exact hvalid.holds upd exp
    · rw [show min expires exp = expires from min_eq_left (not_lt.mp hl)]
      exact hvalid.holds upd expires

theorem rejectUpload_refines (h : Option.Rel (UploadRecord.Holds key) row entry) (tp sp : PathBuf)
    (now exp : ℤ) :
    Refines (UploadRecord.Holds key) (UploadStays entry) (rejectUpload key row tp sp now exp) := by
  cases h with
  | none => exact .row .none .refl
  | some hh =>
    obtain ⟨v, upd, expires, hvalid, rfl, rfl, rfl⟩ := hh
    simp only [rejectUpload, loadUpload_ofValue hvalid]
    split_ifs with hc
    · have hh := (hvalid.with_state (.inl rfl)).holds now exp
      have hk : Keeps v.session { v.session with state := .rejected } :=
        .of_state (by rw [show v.session.state = _ from hc.2.2.1]; rfl) _
      exact hh.checked ▸ .row (.some hh) (.some hk)
    · exact .row (.some (hvalid.holds _ _)) .refl

theorem uploadStatement_refines (key : UploadSessionKey) (row : Option UploadRecord)
    (entry : Option (UploadRow (List Component))) (stmt : UploadStatement)
    (h : Option.Rel (UploadRecord.Holds key) row entry) :
    Refines (UploadRecord.Holds key) (UploadStays entry) (uploadStatement key row stmt) := by
  cases stmt with
  | save proposed conf full now exp =>
    by_cases hk : proposed.key = key
    · subst hk
      rw [uploadStatement, if_pos rfl]
      obtain ⟨msg, he⟩ | ⟨a, row', entry', hok, hh, hst, -⟩ := saveUpload_cases h conf full now exp
      · rw [he]
        exact .refused msg
      · rw [hok]
        exact .row hh hst
    · rw [uploadStatement, if_neg hk]
      exact .row h .refl
  | reject tp sp now exp => exact rejectUpload_refines h tp sp now exp
  | removeIfMatches want due =>
    obtain ⟨sess, hl⟩ : ∃ sess, loadUpload key row = .ok sess := by
      cases h with
      | none => exact ⟨none, rfl⟩
      | some hh =>
        obtain ⟨v, upd, exp, hvalid, rfl, -, rfl⟩ := hh
        exact ⟨some v, loadUpload_ofValue hvalid upd exp⟩
    simp only [uploadStatement, hl]
    cases want.validate with
    | error msg => exact .refused msg
    | ok =>
      dsimp only
      split_ifs
      · exact .row .none (.to_none _)
      · exact .row h .refl
  | sweep => exact .row .none (.to_none _)
  | recover now exp =>
    cases h with
    | none => exact .row .none .refl
    | some hh =>
      have hrc := hh.recover now exp
      show Refines _ _ (checked _ _)
      rw [hrc.checked]
      exact .row (.some hrc) (.some (.recover _ exp))

/-- The rows of uploads. -/
theorem uploadRows_exact (key : UploadSessionKey) :
    RowsExact (uploadStatement key) (·.checks key.row) (decodeUploadRow key.row) := by
  refine .of_refines (uploadStatement_refines key) fun r typed hr => ?_
  obtain ⟨v, upd, exp, hvalid, rfl, -, rfl⟩ := hr
  exact ⟨UploadRecord.satisfies_ofValue hvalid upd exp, v,
    decodeUploadRow_ofValue hvalid upd exp⟩

end Upload

/-! ## Purge jobs -/

/-- The columns of a job key. -/
def PurgeJobKey.row (key : PurgeJobKey) : RowKey := .of key.owner key.id

/-- `load_purge_job` (`purge.rs`, lines 504-522). -/
def loadPurge (key : PurgeJobKey) : Option PurgeRecord → Except Fault (Option PurgeValue) :=
  loaded (decodePurgeRow key.row)

/-- What `prepare_purge_job` inserts (`purge.rs`, lines 50-65). -/
def PurgeRecord.new (v : PurgeValue) (now : ℤ) : PurgeRecord where
  targetPath := v.targetPath.bytes
  trashPath := v.trashPath.bytes
  sourceDeviceBe := BigEndian.encode 8 v.sourceIdentity.device
  sourceInodeBe := BigEndian.encode 8 v.sourceIdentity.inode
  trashRevision := none
  isDirectory := if v.isDirectory then 1 else 0
  state := 0
  attempts := 0
  nextAttemptAtMs := now
  createdAtMs := now
  updatedAtMs := now

/-- The fields that `prepare_purge_job` compares (`purge.rs`, lines 13-16). -/
def PurgeValue.sameJob (existing proposed : PurgeValue) : Bool :=
  decide (existing.targetPath.components = proposed.targetPath.components ∧
    existing.trashPath.components = proposed.trashPath.components ∧
    existing.sourceIdentity = proposed.sourceIdentity ∧
    existing.isDirectory = proposed.isDirectory)

/-- `prepare_purge_job` on the row of its key (`purge.rs`, lines 5-72; `state_store.rs`, lines
    808-809). -/
def preparePurge (row : Option PurgeRecord) (proposed : PurgeValue) (conflicting full : Bool)
    (now : ℤ) : Except Fault (StorePurgeJob × Option PurgeRecord) :=
  match proposed.validateNew with
  | .error message => .error (.refused message)
  | .ok () =>
    match loadPurge proposed.key row with
    | .error fault => .error fault
    | .ok (some existing) => .ok (if existing.sameJob proposed then .existing else .conflict, row)
    | .ok none =>
      if conflicting then .ok (.conflict, row)
      else if full then .ok (.full, row)
      else
        (checked ((PurgeRecord.new proposed now).checks proposed.key.row) (.new proposed now)).map
          (.inserted, ·)

/-- The `SET` list of `mark_purge_job_ready` (`purge.rs`, lines 152-154). -/
def PurgeRecord.ready (r : PurgeRecord) (trashRevision : Digest) (now : ℤ) : PurgeRecord :=
  { r with
    state := 1
    trashRevision := some (BigEndian.encode 32 trashRevision)
    nextAttemptAtMs := now
    updatedAtMs := now }

/-- The `SET` list of `claim_due_purge_job` (`purge.rs`, line 202). -/
def PurgeRecord.claimed (r : PurgeRecord) (now : ℤ) : PurgeRecord :=
  { r with
    state := 2
    updatedAtMs := now }

/-- The `SET` list of `retry_purge_job` (`purge.rs`, lines 228-232). -/
def PurgeRecord.retried (r : PurgeRecord) (nextAttempt now : ℤ) : PurgeRecord :=
  { r with
    state := 1
    attempts := min (r.attempts + 1) 4294967295
    nextAttemptAtMs := nextAttempt
    updatedAtMs := now }

/-- `mark_purge_job_ready` (`purge.rs`, lines 143-176). -/
def readyPurge (key : PurgeJobKey) (row : Option PurgeRecord) (trashRevision : Digest) (now : ℤ) :
    Except Fault (Bool × Option PurgeRecord) :=
  match row with
  | none => .ok (false, none)
  | some r =>
    if r.state = 0 then
      (checked ((r.ready trashRevision now).checks key.row) (r.ready trashRevision now)).map (true, ·)
    else
      (loadPurge key (some r)).map fun job =>
        (job.any fun job => decide (job.state ≠ .prepared ∧ job.trashRevision = some trashRevision),
          some r)

/-- `claim_due_purge_job` (`purge.rs`, lines 178-220) when it selects this row. -/
def claimPurge (key : PurgeJobKey) (row : Option PurgeRecord) (now : ℤ) :
    Except Fault (Option PurgeValue × Option PurgeRecord) :=
  match row with
  | none => .ok (none, none)
  | some r =>
    if r.state = 1 ∧ r.nextAttemptAtMs ≤ now then
      match checked ((r.claimed now).checks key.row) (r.claimed now) with
      | .error fault => .error fault
      | .ok row' => (loadPurge key row').map (·, row')
    else .ok (none, some r)

/-- `retry_purge_job` (`purge.rs`, lines 222-246). -/
def retryPurge (key : PurgeJobKey) (row : Option PurgeRecord) (nextAttempt now : ℤ) :
    Except Fault (Bool × Option PurgeRecord) :=
  match row with
  | none => .ok (false, none)
  | some r =>
    if r.state = 2 then
      (checked ((r.retried nextAttempt now).checks key.row) (r.retried nextAttempt now)).map
        (true, ·)
    else .ok (false, some r)

/-- The statements of `recover_database` on `purge_jobs` (`database.rs`, lines 1514-1537). -/
def PurgeRecord.recover (r : PurgeRecord) (now : ℤ) : PurgeRecord :=
  let r := if r.state = 2 then
      { r with
        state := 1
        nextAttemptAtMs := now
        updatedAtMs := now }
    else r
  if r.state = 1 ∧ now < r.nextAttemptAtMs then
    { r with
      nextAttemptAtMs := now
      updatedAtMs := now }
  else r

/-- A statement on the row of one key. `complete` is `complete_purge_job`, which asks for a claimed
    job, and `remove` is `remove_purge_job` (`purge.rs`, lines 248-278). -/
inductive PurgeStatement where
  | prepare (proposed : PurgeValue) (conflicting full : Bool) (now : ℤ)
  | markReady (trashRevision : Digest) (now : ℤ)
  | claim (now : ℤ)
  | retry (nextAttempt now : ℤ)
  | complete
  | remove
  | recover (now : ℤ)

/-- The row of the key after a statement. -/
def purgeStatement (key : PurgeJobKey) (row : Option PurgeRecord) :
    PurgeStatement → Except Fault (Option PurgeRecord)
  | .prepare proposed conflicting full now =>
    if proposed.key = key then (preparePurge row proposed conflicting full now).map Prod.snd
    else .ok row
  | .markReady trashRevision now => (readyPurge key row trashRevision now).map Prod.snd
  | .claim now => (claimPurge key row now).map Prod.snd
  | .retry nextAttempt now => (retryPurge key row nextAttempt now).map Prod.snd
  | .complete => .ok (row.filter fun r => decide (r.state ≠ 2))
  | .remove => .ok none
  | .recover now =>
    match row with
    | none => .ok none
    | some r => checked ((r.recover now).checks key.row) (r.recover now)

/-- What the typed table holds of a job and of its times. -/
def PurgeValue.row (v : PurgeValue) (nextAttemptAt createdAt : ℤ) : PurgeRow (List Component) where
  targetPath := v.targetPath.components
  trashPath := v.trashPath.components
  sourceIdentity := v.sourceIdentity.identity
  trashRevision := v.trashRevision
  isDirectory := v.isDirectory
  state := v.state
  attempts := v.attempts.toNat
  nextAttemptAtMs := nextAttemptAt
  createdAtMs := createdAt

/-- The columns of a valid job of the key, and the row of the typed table. -/
def PurgeRecord.Holds (key : PurgeJobKey) (r : PurgeRecord) (row : PurgeRow (List Component)) :
    Prop :=
  ∃ v nextAttemptAt createdAt updatedAt, PurgeValue.Valid v ∧ v.key = key ∧
    row = v.row nextAttemptAt createdAt ∧ r = .ofValue v nextAttemptAt createdAt updatedAt

/-- A job that stays makes a step. -/
abbrev PurgeStays : Option (PurgeRow (List Component)) → Option (PurgeRow (List Component)) → Prop :=
  Between fun a b => PurgeRowStep a b

/-- The job once its tree is in the trash. -/
def PurgeValue.ready (v : PurgeValue) (trashRevision : Digest) : PurgeValue :=
  { v with
    state := .ready
    trashRevision := some trashRevision }

/-- The job while a worker holds it. -/
def PurgeValue.claimed (v : PurgeValue) : PurgeValue := { v with state := .claimed }

/-- The job after a failed attempt; the number of attempts saturates. -/
def PurgeValue.retried (v : PurgeValue) : PurgeValue :=
  { v with
    state := .ready
    attempts := BitVec.ofNat 32 (min (v.attempts.toNat + 1) 4294967295) }

section Purge

variable {v : PurgeValue} {key : PurgeJobKey} {row : Option PurgeRecord}
  {entry : Option (PurgeRow (List Component))}

theorem PurgeStays.refl : PurgeStays entry entry := Between.refl (fun _ => .same) entry

theorem PurgeValue.Valid.holds (h : v.Valid) (due cre upd : ℤ) :
    (PurgeRecord.ofValue v due cre upd).Holds v.key (v.row due cre) :=
  ⟨v, due, cre, upd, h, rfl, rfl, rfl⟩

theorem PurgeRecord.Holds.checked {r : PurgeRecord} {typed : PurgeRow (List Component)}
    (h : r.Holds key typed) : checked (r.checks key.row) r = .ok (some r) := by
  obtain ⟨v, due, cre, upd, hvalid, rfl, rfl, rfl⟩ := h
  exact if_pos (PurgeRecord.satisfies_ofValue hvalid due cre upd)

theorem loadPurge_ofValue (h : v.Valid) (due cre upd : ℤ) :
    loadPurge v.key (some (.ofValue v due cre upd)) = .ok (some v) := by
  have hd := decodePurgeRow_ofValue h due cre upd
  simp [loadPurge, loaded, PurgeJobKey.row, hd]

theorem PurgeRecord.new_eq_ofValue (h : v.validateNew = .ok ()) (now : ℤ) :
    PurgeRecord.new v now = .ofValue v now now now := by
  obtain ⟨-, hs, hr, ha⟩ := PurgeValue.validateNew_eq_ok_iff.mp h
  simp [PurgeRecord.new, PurgeRecord.ofValue, hs, hr, ha, StoredPurgeState.toDatabase]

theorem PurgeRecord.ready_ofValue (v : PurgeValue) (due cre upd : ℤ) (trev : Digest) (now : ℤ) :
    (PurgeRecord.ofValue v due cre upd).ready trev now = .ofValue (v.ready trev) now cre now := rfl

theorem PurgeRecord.claimed_ofValue (v : PurgeValue) (due cre upd now : ℤ) :
    (PurgeRecord.ofValue v due cre upd).claimed now = .ofValue v.claimed due cre now := rfl

theorem PurgeRecord.retried_ofValue (v : PurgeValue) (due cre upd att now : ℤ) :
    (PurgeRecord.ofValue v due cre upd).retried att now = .ofValue v.retried att cre now := by
  have hlt : min (v.attempts.toNat + 1) 4294967295 < 2 ^ 32 := by omega
  have ha : (v.retried.attempts.toNat : ℤ) = min ((v.attempts.toNat : ℤ) + 1) 4294967295 := by
    rw [PurgeValue.retried, BitVec.toNat_ofNat, Nat.mod_eq_of_lt hlt]
    omega
  simp only [PurgeRecord.retried, PurgeRecord.ofValue, ha]
  rfl

/-- A new job can be read back. -/
theorem preparePurge_cases {proposed : PurgeValue}
    (hr : Option.Rel (PurgeRecord.Holds proposed.key) row entry) (conf full : Bool) (now : ℤ) :
    (∃ msg, preparePurge row proposed conf full now = .error (.refused msg)) ∨
    ∃ a row' entry', preparePurge row proposed conf full now = .ok (a, row') ∧
      Option.Rel (PurgeRecord.Holds proposed.key) row' entry' ∧ PurgeStays entry entry' ∧
      (a = .inserted → loadPurge proposed.key row' = .ok (some proposed)) := by
  cases hv : proposed.validateNew with
  | error msg =>
    left
    exact ⟨msg, by simp [preparePurge, hv]⟩
  | ok =>
    right
    cases hr with
    | some hh =>
      have hsm := hh
      obtain ⟨v, due, cre, upd, hvalid, hk, rfl, rfl⟩ := hh
      have hl := hk ▸ loadPurge_ofValue hvalid due cre upd
      refine ⟨if v.sameJob proposed then .existing else .conflict, _, _, ?_, .some hsm, .refl,
        fun h => ?_⟩
      · simp [preparePurge, hv, hl]
      · split_ifs at h
    | none =>
      have hn : loadPurge proposed.key none = .ok none := rfl
      cases conf with
      | true => exact ⟨.conflict, none, _, by simp [preparePurge, hv, hn], .none, .refl, nofun⟩
      | false =>
        cases full with
        | true => exact ⟨.full, none, _, by simp [preparePurge, hv, hn], .none, .refl, nofun⟩
        | false =>
          have hp := (PurgeValue.validateNew_eq_ok_iff.mp hv).1
          have hh := hp.holds now now now
          rw [← PurgeRecord.new_eq_ofValue hv] at hh
          refine ⟨.inserted, some (.new proposed now), _, ?_, .some hh, .of_none _, fun _ => ?_⟩
          · simp only [preparePurge, hv, hn, hh.checked]
            rfl
          · rw [PurgeRecord.new_eq_ofValue hv]
            exact loadPurge_ofValue hp now now now

theorem PurgeRecord.state_ofValue (due cre upd : ℤ) :
    ((PurgeRecord.ofValue v due cre upd).state = 0 ↔ v.state = .prepared) ∧
    ((PurgeRecord.ofValue v due cre upd).state = 1 ↔ v.state = .ready) ∧
    ((PurgeRecord.ofValue v due cre upd).state = 2 ↔ v.state = .claimed) := by
  simp only [PurgeRecord.ofValue]
  cases v.state <;> decide

variable (hvalid : v.Valid) (due cre upd now : ℤ)

include hvalid

/-- Whoever changes a job leaves its paths alone. -/
theorem PurgeValue.Valid.of_paths {v' : PurgeValue} (ht : v'.targetPath = v.targetPath)
    (htr : v'.trashPath = v.trashPath) : v'.Valid := by
  obtain ⟨h, h', hd⟩ := hvalid
  rw [← ht] at h hd
  rw [← htr] at h' hd
  exact ⟨h, h', hd⟩

theorem PurgeValue.Valid.ready (trev : Digest) : (v.ready trev).Valid := hvalid.of_paths rfl rfl

theorem PurgeValue.Valid.claimed : v.claimed.Valid := hvalid.of_paths rfl rfl

theorem PurgeValue.Valid.retried : v.retried.Valid := hvalid.of_paths rfl rfl

theorem readyPurge_ofValue (trev : Digest) :
    readyPurge v.key (some (.ofValue v due cre upd)) trev now =
      .ok (if v.state = .prepared then (true, some (.ofValue (v.ready trev) now cre now))
        else (decide (v.trashRevision = some trev), some (.ofValue v due cre upd))) := by
  have hs := (PurgeRecord.state_ofValue (v := v) due cre upd).1
  by_cases hp : v.state = .prepared
  · rw [readyPurge, if_pos (hs.mpr hp), PurgeRecord.ready_ofValue, if_pos hp]
    exact congrArg (Except.map (true, ·)) ((hvalid.ready trev).holds now cre now).checked
  · rw [readyPurge, if_neg (mt hs.mp hp), loadPurge_ofValue hvalid, if_neg hp]
    simp [Except.map, hp]

/-- A claimed job is the one that the row holds afterwards. -/
theorem claimPurge_ofValue :
    claimPurge v.key (some (.ofValue v due cre upd)) now =
      .ok (if v.state = .ready ∧ due ≤ now then
          (some v.claimed, some (.ofValue v.claimed due cre now))
        else (none, some (.ofValue v due cre upd))) := by
  have hs : (PurgeRecord.ofValue v due cre upd).state = 1 ∧
      (PurgeRecord.ofValue v due cre upd).nextAttemptAtMs ≤ now ↔ v.state = .ready ∧ due ≤ now :=
    and_congr_left' (PurgeRecord.state_ofValue due cre upd).2.1
  by_cases hd : v.state = .ready ∧ due ≤ now
  · have hc := (hvalid.claimed.holds due cre now).checked
    have hl := loadPurge_ofValue hvalid.claimed due cre now
    rw [show v.claimed.key = v.key from rfl] at hc hl
    rw [claimPurge, if_pos (hs.mpr hd), if_pos hd, PurgeRecord.claimed_ofValue, hc]
    simp only [hl]
    rfl
  · rw [claimPurge, if_neg (mt hs.mp hd), if_neg hd]

theorem retryPurge_ofValue (att : ℤ) :
    retryPurge v.key (some (.ofValue v due cre upd)) att now =
      .ok (if v.state = .claimed then (true, some (.ofValue v.retried att cre now))
        else (false, some (.ofValue v due cre upd))) := by
  have hs := (PurgeRecord.state_ofValue (v := v) due cre upd).2.2
  by_cases hcl : v.state = .claimed
  · rw [retryPurge, if_pos (hs.mpr hcl), PurgeRecord.retried_ofValue, if_pos hcl]
    exact congrArg (Except.map (true, ·)) (hvalid.retried.holds att cre now).checked
  · rw [retryPurge, if_neg (mt hs.mp hcl), if_neg hcl]

omit hvalid in
/-- The recovery of the columns is that of the typed row. -/
theorem PurgeRecord.Holds.recover {r : PurgeRecord} {typed : PurgeRow (List Component)}
    (h : r.Holds key typed) : (r.recover now).Holds key (typed.recover now) := by
  obtain ⟨v, due, cre, upd, hvalid, rfl, rfl, rfl⟩ := h
  have hc : (PurgeRecord.ofValue v due cre upd).recover now =
      if (v.row due cre).state = .claimed ∨
          (v.row due cre).state = .ready ∧ now < (v.row due cre).nextAttemptAtMs then
        .ofValue { v with state := .ready } now cre now
      else .ofValue v due cre upd := by
    by_cases hl : now < due <;> cases hs : v.state <;>
      simp [PurgeRecord.recover, PurgeRecord.ofValue, PurgeValue.row, hs, hl,
        StoredPurgeState.toDatabase]
  rw [hc, PurgeRow.recover]
  split_ifs
  · have hr : PurgeValue.Valid { v with state := .ready } := hvalid.of_paths rfl rfl
    exact hr.holds now cre now
  · exact hvalid.holds due cre upd

end Purge

theorem preparePurge_refines {key : PurgeJobKey} {row : Option PurgeRecord}
    {entry : Option (PurgeRow (List Component))} (h : Option.Rel (PurgeRecord.Holds key) row entry)
    (proposed : PurgeValue) (conf full : Bool) (now : ℤ) :
    Refines (PurgeRecord.Holds key) (PurgeStays entry)
      (purgeStatement key row (.prepare proposed conf full now)) := by
  by_cases hk : proposed.key = key
  · subst hk
    rw [purgeStatement, if_pos rfl]
    obtain ⟨msg, he⟩ | ⟨a, row', entry', hok, hh, hst, -⟩ := preparePurge_cases h conf full now
    · rw [he]
      exact .refused msg
    · rw [hok]
      exact .row hh hst
  · rw [purgeStatement, if_neg hk]
    exact .row h .refl

theorem purgeStatement_refines (key : PurgeJobKey) (row : Option PurgeRecord)
    (entry : Option (PurgeRow (List Component))) (stmt : PurgeStatement)
    (h : Option.Rel (PurgeRecord.Holds key) row entry) :
    Refines (PurgeRecord.Holds key) (PurgeStays entry) (purgeStatement key row stmt) := by
  have hsm := h
  cases h with
  | none =>
    cases stmt with
    | prepare proposed conf full now => exact preparePurge_refines hsm proposed conf full now
    | markReady | claim | retry | complete | remove | recover => exact .row .none .refl
  | some hh =>
    have hrc := fun now => hh.recover now
    obtain ⟨v, due, cre, upd, hvalid, rfl, rfl, rfl⟩ := hh
    cases stmt with
    | prepare proposed conf full now => exact preparePurge_refines hsm proposed conf full now
    | remove => exact .row .none (.to_none _)
    | complete =>
      simp only [purgeStatement, Option.filter_some]
      split_ifs
      · exact .row hsm .refl
      · exact .row .none (.to_none _)
    | markReady trev now =>
      rw [purgeStatement, readyPurge_ofValue hvalid]
      split_ifs with hp
      · exact .row (.some ((hvalid.ready trev).holds now cre now)) (.some (.ready trev now hp))
      · exact .row hsm .refl
    | claim now =>
      rw [purgeStatement, claimPurge_ofValue hvalid]
      split_ifs with hd
      · exact .row (.some (hvalid.claimed.holds due cre now)) (.some (.claimed hd.1))
      · exact .row hsm .refl
    | retry att now =>
      rw [purgeStatement, retryPurge_ofValue hvalid]
      split_ifs with hcl
      · have hs : (v.row due cre).state ≠ .prepared := by simp [PurgeValue.row, hcl]
        exact .row (.some (hvalid.retried.holds att cre now)) (.some (.requeued _ att hs))
      · exact .row hsm .refl
    | recover now =>
      show Refines _ _ (checked _ _)
      rw [(hrc now).checked]
      exact .row (.some (hrc now)) (.some (.recover _ now))

/-- The rows of purge jobs. -/
theorem purgeRows_exact (key : PurgeJobKey) :
    RowsExact (purgeStatement key) (·.checks key.row) (decodePurgeRow key.row) := by
  refine .of_refines (purgeStatement_refines key) fun r typed hr => ?_
  obtain ⟨v, due, cre, upd, hvalid, rfl, -, rfl⟩ := hr
  exact ⟨PurgeRecord.satisfies_ofValue hvalid due cre upd, v,
    decodePurgeRow_ofValue hvalid due cre upd⟩

end DufsRam.StateStore
