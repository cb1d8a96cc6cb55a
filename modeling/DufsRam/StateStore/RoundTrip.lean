import DufsRam.StateStore.Statements

/-!
# Constraints, decoders and validators agree

The statements of `state_store/operation.rs` on the columns of one row of `operations`, and the
agreement for the three tables of the store: what a validated value writes passes the constraints, a
row that was written can be read, and what is read is what was written.

Results:
* `operationStatement_refines`: on columns that hold a typed row, a statement is refused or does what
  the command does to that row.
* `stored_rows_round_trip`: the agreement, for every value and over the whole life of every row.
-/

namespace DufsRam.StateStore

/-! ## Statements on operations -/

/-- The columns of an operation key. -/
def OperationKey.row (key : OperationKey) : RowKey := .of key.owner key.id

namespace OperationRecord

/-- What `begin_operation` inserts (`operation.rs`, lines 45-56). -/
def new (fingerprint : Digest) (lease : Uuid) (now : ℤ) : OperationRecord where
  fingerprint := BigEndian.encode 32 fingerprint
  leaseToken := BigEndian.encode 16 lease
  state := 0
  terminalState := none
  httpStatus := none
  errorCode := none
  createdAtMs := now
  updatedAtMs := now
  expiresAtMs := none

/-- The `SET` list of `complete_operation` (`operation.rs`, lines 126-143), which abandonment and
    recovery also use. -/
def complete (r : OperationRecord) (outcome : StoredOutcome) (now expiresAt : ℤ) :
    OperationRecord :=
  { r with
    state := 2
    terminalState := some outcome.state.toDatabase
    httpStatus := some (outcome.status : ℤ)
    errorCode := outcome.code
    updatedAtMs := now
    expiresAtMs := some expiresAt }

/-- The rows that `purge_expired` deletes (`operation.rs`, lines 275-289). -/
def isExpired (r : OperationRecord) (now : ℤ) : Bool :=
  decide (r.state = 2) && r.expiresAtMs.any fun expiresAt => decide (expiresAt ≤ now)

/-- The conditions on the lease and the state of a row. -/
def held (r : OperationRecord) (lease : Uuid) (states : List ℤ) : Bool :=
  decide (r.leaseToken = BigEndian.encode 16 lease) && decide (r.state ∈ states)

/-- The fingerprint of a loaded operation (`operation.rs`, lines 262-263). -/
def loadFingerprint (r : OperationRecord) : Except String Digest :=
  tryInto 32 r.fingerprint "Operation fingerprint has an invalid length"

/-- What `begin_operation` and `operation_status` make of the state (`operation.rs`, lines 19-23 and
    72-76): nothing while the operation runs, and then its outcome. -/
def outcome (r : OperationRecord) : Except String (Option StoredOutcome) :=
  if r.state = 0 ∨ r.state = 1 then .ok none
  else if r.state = 2 then r.intoOutcome.map some
  else .error ("Invalid operation state in the state database: " ++ toString r.state)

/-- `load_operation` and the reading of the outcome. -/
def decode (r : OperationRecord) : Except String (Digest × Option StoredOutcome) := do
  let fingerprint ← r.loadFingerprint
  let outcome ← r.outcome
  return (fingerprint, outcome)

/-- The statements of `recover_database` on a row that is not expired and not reserved (`database.rs`,
    lines 1463-1491). -/
def recover (r : OperationRecord) (now expiresAt : ℤ) : OperationRecord :=
  let r := if r.state = 1 then r.complete .uncertain now expiresAt else r
  if r.state = 2 ∧ (r.expiresAtMs.any fun expires => decide (expiresAt < expires)) then
    { r with expiresAtMs := some expiresAt }
  else r

end OperationRecord

/-- `begin_operation` on the row of its key (`operation.rs`, lines 4-63). -/
def beginOperationRow (key : OperationKey) (row : Option OperationRecord) (fingerprint : Digest)
    (lease : Uuid) (full : Bool) (now : ℤ) :
    Except Fault (StoreBegin × Option OperationRecord) :=
  match row.filter fun r => !r.isExpired now with
  | some r =>
    match r.loadFingerprint with
    | .error message => .error (.unreadable message)
    | .ok existing =>
      if existing ≠ fingerprint then .ok (.conflict, some r)
      else
        match r.outcome with
        | .error message => .error (.unreadable message)
        | .ok none => .ok (.running, some r)
        | .ok (some outcome) => .ok (.replay outcome, some r)
  | none =>
    if full then .ok (.full, none)
    else
      (checked ((OperationRecord.new fingerprint lease now).checks key.row)
        (.new fingerprint lease now)).map (.started lease, ·)

/-- `operation_status` (`operation.rs`, lines 65-82). -/
def operationStatusRow (row : Option OperationRecord) (now : ℤ) :
    Except Fault (StoreStatus × Option OperationRecord) :=
  match row.filter fun r => !r.isExpired now with
  | none => .ok (.notFound, none)
  | some r =>
    match r.decode with
    | .error message => .error (.unreadable message)
    | .ok (_, none) => .ok (.running, some r)
    | .ok (_, some outcome) => .ok (.completed outcome, some r)

/-- `complete_operation` (`operation.rs`, lines 114-155; `state_store.rs`, line 654). -/
def completeOperationRow (key : OperationKey) (row : Option OperationRecord) (lease : Uuid)
    (outcome : StoredOutcome) (now expiresAt : ℤ) :
    Except Fault (Bool × Option OperationRecord) :=
  match outcome.validate with
  | .error message => .error (.refused message)
  | .ok () =>
    match row with
    | none => .ok (false, none)
    | some r =>
      if r.held lease [0, 1] then
        (checked ((r.complete outcome now expiresAt).checks key.row)
          (r.complete outcome now expiresAt)).map (true, ·)
      else .ok (false, some r)

/-- `abandon_operation` (`operation.rs`, lines 157-208). -/
def abandonOperationRow (key : OperationKey) (row : Option OperationRecord) (lease : Uuid)
    (now expiresAt : ℤ) : Except Fault (Option OperationRecord) :=
  match row with
  | none => .ok none
  | some r =>
    if r.held lease [0] then .ok none
    else if r.held lease [1] then
      checked ((r.complete .uncertain now expiresAt).checks key.row)
        (r.complete .uncertain now expiresAt)
    else .ok (some r)

/-- A statement on the row of one key; outcomes are those that the server builds. -/
inductive OperationStatement where
  | begin (fingerprint : Digest) (lease : Uuid) (full : Bool) (now : ℤ)
  | status (now : ℤ)
  | markCommitStarted (lease : Uuid) (now : ℤ)
  | complete (lease : Uuid) (outcome : { o : OperationOutcome // o.Built }) (now expiresAt : ℤ)
  | abandon (lease : Uuid) (now expiresAt : ℤ)
  | recover (now expiresAt : ℤ)
  | sweep (now : ℤ)

/-- The row of the key after a statement. -/
def operationStatement (key : OperationKey) (row : Option OperationRecord) :
    OperationStatement → Except Fault (Option OperationRecord)
  | .begin fingerprint lease full now =>
    (beginOperationRow key row fingerprint lease full now).map Prod.snd
  | .status now => (operationStatusRow row now).map Prod.snd
  | .markCommitStarted lease now =>
    match row with
    | none => .ok none
    | some r =>
      if r.held lease [0] then
        let marked := { r with state := 1, updatedAtMs := now }
        checked (marked.checks key.row) marked
      else .ok (some r)
  | .complete lease outcome now expiresAt =>
    (completeOperationRow key row lease outcome.val.intoStored now expiresAt).map Prod.snd
  | .abandon lease now expiresAt => abandonOperationRow key row lease now expiresAt
  | .recover now expiresAt =>
    match row.filter fun r => !r.isExpired now with
    | none => .ok none
    | some r =>
      if r.state = 0 then .ok none
      else checked ((r.recover now expiresAt).checks key.row) (r.recover now expiresAt)
  | .sweep now => .ok (row.filter fun r => !r.isExpired now)

/-! ## Rows of operations -/

/-- The columns of a sound row, and the row of the typed table. -/
def OperationRecord.Holds (r : OperationRecord) (row : OperationRow) : Prop :=
  row.Sound ∧ r = .ofRow row

/-- The command that a statement belongs to. A sweep is that of any call. -/
def OperationStatement.event (key : OperationKey) : OperationStatement → Event
  | .begin fingerprint lease _ now => ⟨.begin key fingerprint lease, now⟩
  | .status now | .sweep now => ⟨.status key, now⟩
  | .markCommitStarted lease now => ⟨.markCommitStarted key lease, now⟩
  | .complete lease outcome now _ => ⟨.complete key lease outcome.val.intoStored, now⟩
  | .abandon lease now _ => ⟨.abandon key lease, now⟩
  | .recover now _ => ⟨.recover, now⟩

namespace OperationRow

theorem Sound.marked {row : OperationRow} (h : row.Sound) (hs : row.state = .reserved)
    (now : ℤ) : { row with state := .commitStarted, updatedAtMs := now }.Sound := by
  cases h with
  | active fp l state ha cre upd =>
    exact .active fp l .commitStarted (.inr rfl) cre now
  | completed fp l out hb hv cre upd exp => cases hs

theorem Sound.complete {row : OperationRow} (h : row.Sound) {o : OperationOutcome} (hb : o.Built)
    (hv : o.intoStored.Valid) (now exp : ℤ) :
    (row.complete o.intoStored now exp).Sound := by
  cases h with
  | active fp l _ _ cre | completed fp l _ _ _ cre =>
    exact .completed fp l o hb hv cre now exp

end OperationRow

namespace OperationRecord

theorem uncertain_valid : OperationOutcome.uncertain.intoStored.Valid :=
  StoredOutcome.validate_eq_ok_iff.mp (by decide)

theorem sound_uncertain {row : OperationRow} (h : row.Sound) (now exp : ℤ) :
    (row.complete .uncertain now exp).Sound := h.complete .uncertain uncertain_valid now exp

theorem loadFingerprint_ofRow (row : OperationRow) :
    (ofRow row).loadFingerprint = .ok row.fingerprint :=
  tryInto_encode 32 row.fingerprint _

theorem outcome_complete {o : StoredOutcome} (h : o.Valid) (row : OperationRow) (now exp : ℤ) :
    (ofRow (row.complete o now exp)).outcome = .ok (some o) := by
  have hs : (ofRow (row.complete o now exp)).state = 2 := rfl
  rw [outcome, hs, if_neg (by decide), if_pos rfl, intoOutcome_ofRow, row.intoOutcome_complete h]
  rfl

theorem exists_outcome {row : OperationRow} (h : row.Sound) : ∃ o, (ofRow row).outcome = .ok o := by
  cases h with
  | active fp l st ha cre upd =>
    obtain rfl | rfl := ha
    · exact ⟨none, rfl⟩
    · exact ⟨none, rfl⟩
  | completed fp l o hb hv cre upd exp =>
    exact ⟨_, outcome_complete hv (.new fp l cre) upd exp⟩

theorem exists_decode {row : OperationRow} (h : row.Sound) : ∃ v, (ofRow row).decode = .ok v := by
  obtain ⟨o, ho⟩ := exists_outcome h
  refine ⟨(row.fingerprint, o), ?_⟩
  rw [decode, loadFingerprint_ofRow, ho]
  rfl

theorem Holds.checked {r : OperationRecord} {row : OperationRow} (h : r.Holds row)
    (key : OperationKey) : checked (r.checks key.row) r = .ok (some r) := by
  obtain ⟨hs, rfl⟩ := h
  exact if_pos (satisfies_ofRow hs key)

theorem toDatabase_injective : Function.Injective OperationState.toDatabase := by
  intro a b
  cases a <;> cases b <;> decide

theorem isExpired_ofRow (row : OperationRow) (now : ℤ) :
    (ofRow row).isExpired now = row.isExpired now := by
  have hs : row.state.toDatabase = 2 ↔ row.state = .completed := by cases row.state <;> decide
  simp only [isExpired, OperationRow.isExpired, ofRow, hs]

theorem held_ofRow {row : OperationRow} {l : Uuid} (states : List OperationState) :
    (ofRow row).held l (states.map OperationState.toDatabase) = true ↔
      row.leaseToken = l ∧ row.state ∈ states := by
  rw [held, Bool.and_eq_true, decide_eq_true_iff, decide_eq_true_iff]
  exact and_congr (BigEndian.encode_injective 16).eq_iff
    (List.mem_map_of_injective toDatabase_injective)

/-- The recovery of the columns is that of the typed row. -/
theorem Holds.recover {r : OperationRecord} {typed : OperationRow} (h : r.Holds typed)
    (now exp : ℤ) : Option.Rel Holds
      (if r.isExpired now = true ∨ r.state = 0 then none else some (r.recover now exp))
      (typed.recover now exp) := by
  obtain ⟨hs, rfl⟩ := h
  cases hs with
  | active fp l st ha cre upd =>
    obtain rfl | rfl := ha
    · exact .none
    · have hc := sound_uncertain (.active fp l .commitStarted (.inr rfl) cre upd) now exp
      have hr := Option.Rel.some (show Holds _ _ from ⟨hc, rfl⟩)
      simpa [OperationRecord.recover, isExpired, OperationRow.recover, OperationRow.isExpired, ofRow,
        OperationRecord.complete, OperationRow.complete, OperationState.toDatabase] using hr
  | completed fp l out hb hv cre upd expires =>
    have hk : ∀ e, Holds _ _ := fun e => ⟨.completed fp l out hb hv cre upd e, rfl⟩
    by_cases hx : expires ≤ now
    · simp [isExpired, OperationRow.recover, OperationRow.isExpired, ofRow, hx,
        OperationState.toDatabase]
    by_cases hl : exp < expires
    · simpa [OperationRecord.recover, isExpired, OperationRow.recover, OperationRow.isExpired, ofRow,
        hx, hl, OperationState.toDatabase] using Option.Rel.some (hk exp)
    · simpa [OperationRecord.recover, isExpired, OperationRow.recover, OperationRow.isExpired, ofRow,
        hx, hl, OperationState.toDatabase] using Option.Rel.some (hk expires)

end OperationRecord

section Operation

open OperationRecord (Holds)

variable {row : Option OperationRecord} {entry : Option OperationRow} (h : Option.Rel Holds row entry)
  (key : OperationKey)

include h

theorem rel_live (now : ℤ) : Option.Rel Holds (row.filter fun r => !r.isExpired now)
    (entry.filter fun typed => !typed.isExpired now) := by
  cases h with
  | none => exact .none
  | some hh =>
    obtain ⟨hs, rfl⟩ := hh
    simp only [Option.filter_some, OperationRecord.isExpired_ofRow]
    split_ifs
    · exact .some ⟨hs, rfl⟩
    · exact .none

theorem beginOperationRow_refines (fp : Digest) (l : Uuid) (full : Bool) (now : ℤ) :
    Refines Holds (RowStep ⟨.begin key fp l, now⟩ key entry)
      ((beginOperationRow key row fp l full now).map Prod.snd) := by
  have hl := rel_live h now
  have hst : RowStep ⟨.begin key fp l, now⟩ key entry
      (entry.filter fun typed => !typed.isExpired now) := .purge rfl entry
  rw [beginOperationRow]
  generalize row.filter _ = live at hl ⊢
  generalize hle : entry.filter _ = typed at hl hst
  cases hl with
  | some hh =>
    obtain ⟨o, ho⟩ := OperationRecord.exists_outcome hh.1
    simp only [hh.2, OperationRecord.loadFingerprint_ofRow, ho]
    split_ifs
    · exact .row (.some ⟨hh.1, rfl⟩) hst
    · cases o with
      | none | some => exact .row (.some ⟨hh.1, rfl⟩) hst
  | none =>
    have hh : (OperationRecord.new fp l now).Holds (.new fp l now) :=
      ⟨.active fp l .reserved (.inl rfl) now now, rfl⟩
    cases full with
    | true => exact .row .none hst
    | false =>
      refine (hh.checked key) ▸ .row (.some hh) (.started rfl ?_)
      rintro typed rfl
      simpa using hle

theorem operationStatusRow_refines (now : ℤ) :
    Refines Holds (RowStep ⟨.status key, now⟩ key entry)
      ((operationStatusRow row now).map Prod.snd) := by
  have hl := rel_live h now
  have hst : RowStep ⟨.status key, now⟩ key entry
      (entry.filter fun typed => !typed.isExpired now) := .purge rfl entry
  rw [operationStatusRow]
  generalize row.filter _ = live at hl ⊢
  generalize entry.filter _ = typed at hl hst
  cases hl with
  | none => exact .row .none hst
  | some hh =>
    obtain ⟨⟨fp, o⟩, ho⟩ := OperationRecord.exists_decode hh.1
    simp only [hh.2, ho]
    cases o with
    | none | some => exact .row (.some ⟨hh.1, rfl⟩) hst

/-- An outcome that was recorded can be read back. -/
theorem completeOperationRow_cases (l : Uuid) {o : OperationOutcome} (hb : o.Built) (now exp : ℤ) :
    (∃ msg, completeOperationRow key row l o.intoStored now exp = .error (.refused msg)) ∨
    ∃ a row' entry', completeOperationRow key row l o.intoStored now exp = .ok (a, row') ∧
      Option.Rel Holds row' entry' ∧ RowStep ⟨.complete key l o.intoStored, now⟩ key entry entry' ∧
      (a = true → ∃ r, row' = some r ∧ r.outcome = .ok (some o.intoStored)) := by
  cases hv : o.intoStored.validate with
  | error msg =>
    left
    exact ⟨msg, by simp [completeOperationRow, hv]⟩
  | ok =>
    right
    have hvl := StoredOutcome.validate_eq_ok_iff.mp hv
    cases h with
    | none =>
      exact ⟨false, none, none, by simp [completeOperationRow, hv], .none, .same none, nofun⟩
    | some hh =>
      obtain ⟨hs, rfl⟩ := hh
      rename_i typed
      simp only [completeOperationRow, hv]
      split_ifs with hld
      · obtain ⟨rfl, hm⟩ := (OperationRecord.held_ofRow [.reserved, .commitStarted]).mp hld
        have hc : ((OperationRecord.ofRow typed).complete o.intoStored now exp).Holds
            (typed.complete o.intoStored now exp) := ⟨hs.complete hb hvl now exp, rfl⟩
        rw [hc.checked]
        refine ⟨true, _, _, rfl, .some hc, .completed exp rfl fun hcd => ?_, fun _ => ⟨_, rfl, ?_⟩⟩
        · simp [hcd] at hm
        · exact OperationRecord.outcome_complete hvl typed now exp
      · exact ⟨false, _, _, rfl, .some ⟨hs, rfl⟩, .same _, nofun⟩

theorem abandonOperationRow_refines (l : Uuid) (now exp : ℤ) :
    Refines Holds (RowStep ⟨.abandon key l, now⟩ key entry)
      (abandonOperationRow key row l now exp) := by
  cases h with
  | none => exact .row .none (.same none)
  | some hh =>
    obtain ⟨hs, rfl⟩ := hh
    rename_i typed
    rw [abandonOperationRow]
    split_ifs with hr hc
    · obtain ⟨rfl, hm⟩ := (OperationRecord.held_ofRow [.reserved]).mp hr
      exact .row .none (.removed (.inl rfl) (List.mem_singleton.mp hm))
    · obtain ⟨rfl, hm⟩ := (OperationRecord.held_ofRow [.commitStarted]).mp hc
      have hh : ((OperationRecord.ofRow typed).complete .uncertain now exp).Holds
          (typed.complete .uncertain now exp) := ⟨OperationRecord.sound_uncertain hs now exp, rfl⟩
      exact (hh.checked key) ▸ .row (.some hh) (.uncertain exp (.inl rfl) (List.mem_singleton.mp hm))
    · exact .row (.some ⟨hs, rfl⟩) (.same _)

end Operation

open OperationRecord (Holds) in
theorem operationStatement_refines (key : OperationKey) (row : Option OperationRecord)
    (entry : Option OperationRow) (stmt : OperationStatement) (h : Option.Rel Holds row entry) :
    Refines Holds (RowStep (stmt.event key) key entry) (operationStatement key row stmt) := by
  cases stmt with
  | begin fp l full now => exact beginOperationRow_refines h key fp l full now
  | status now => exact operationStatusRow_refines h key now
  | markCommitStarted l now =>
    cases h with
    | none => exact .row .none (.same none)
    | some hh =>
      obtain ⟨hs, rfl⟩ := hh
      rename_i typed
      simp only [operationStatement]
      split_ifs with hld
      · obtain ⟨rfl, hm⟩ := (OperationRecord.held_ofRow [.reserved]).mp hld
        have hrs := List.mem_singleton.mp hm
        have hh : Holds { OperationRecord.ofRow typed with state := 1, updatedAtMs := now }
            { typed with state := .commitStarted, updatedAtMs := now } := ⟨hs.marked hrs now, rfl⟩
        exact (hh.checked key) ▸ .row (.some hh) (.marked rfl hrs)
      · exact .row (.some ⟨hs, rfl⟩) (.same _)
  | complete l out now exp =>
    rw [operationStatement]
    obtain ⟨msg, he⟩ | ⟨a, row', entry', hok, hh, hst, -⟩ :=
      completeOperationRow_cases h key l out.property now exp
    · rw [he]
      exact .refused msg
    · rw [hok]
      exact .row hh hst
  | abandon l now exp => exact abandonOperationRow_refines h key l now exp
  | recover now exp =>
    cases h with
    | none => exact .row .none (.same none)
    | @some r typed hh =>
      have hrc := hh.recover now exp
      have hst : RowStep ((OperationStatement.recover now exp).event key) key (some typed)
          (typed.recover now exp) := .recover rfl typed exp
      generalize typed.recover now exp = after at hrc hst
      simp only [operationStatement, Option.filter_some]
      split_ifs at hrc with hx
      · cases hrc
        obtain hx | hx := hx
        · simpa [hx] using Refines.row .none hst
        · split_ifs <;> simpa [hx] using Refines.row .none hst
      · obtain ⟨hx, hz⟩ := not_or.mp hx
        cases hrc with
        | some hh' => simpa [hx, hz, hh'.checked] using Refines.row (.some hh') hst
  | sweep now => exact .row (rel_live h now) (.purge rfl entry)

/-- The rows of operations. -/
theorem operationRows_exact (key : OperationKey) :
    RowsExact (operationStatement key) (·.checks key.row) OperationRecord.decode := by
  refine .of_refines (operationStatement_refines key) fun r typed hr => ?_
  obtain ⟨hs, rfl⟩ := hr
  exact ⟨OperationRecord.satisfies_ofRow hs key, OperationRecord.exists_decode hs⟩

/-! ## What is read is what was written -/

/-- A session that was stored is the one that is loaded. -/
def UploadsKept (key : UploadSessionKey) (row : Option UploadRecord) : Prop :=
  ∀ proposed conflicting full now expiresAt answer row', proposed.key = key →
    saveUpload row proposed conflicting full now expiresAt = .ok (answer, row') →
    answer.stored = true → Saved row proposed row'

/-- A new purge job is the one that is loaded, and a job changes as the statements say. -/
structure PurgesKept (key : PurgeJobKey) (row : Option PurgeRecord) : Prop where
  prepared : ∀ proposed conflicting full now row', proposed.key = key →
    preparePurge row proposed conflicting full now = .ok (.inserted, row') →
    loadPurge key row' = .ok (some proposed)
  ready : ∀ v trashRevision now, loadPurge key row = .ok (some v) →
    ∃ answer row', readyPurge key row trashRevision now = .ok (answer, row') ∧
      loadPurge key row' = .ok (some (if v.state = .prepared then v.ready trashRevision else v))
  claimed : ∀ v now, loadPurge key row = .ok (some v) →
    ∃ answer row', claimPurge key row now = .ok (answer, row') ∧
      (answer = none ∧ loadPurge key row' = .ok (some v) ∨
        answer = some v.claimed ∧ loadPurge key row' = .ok (some v.claimed))
  retried : ∀ v nextAttempt now, loadPurge key row = .ok (some v) →
    ∃ answer row', retryPurge key row nextAttempt now = .ok (answer, row') ∧
      loadPurge key row' = .ok (some (if v.state = .claimed then v.retried else v))

/-- An outcome that was recorded is the one that is read. -/
def OutcomesKept (key : OperationKey) (row : Option OperationRecord) : Prop :=
  ∀ lease (o : OperationOutcome) now expiresAt row', o.Built →
    completeOperationRow key row lease o.intoStored now expiresAt = .ok (true, row') →
    ∃ r, row' = some r ∧ r.outcome = .ok (some o.intoStored) ∧
      OperationOutcome.fromStored o.intoStored = .ok o

theorem uploadsKept {key : UploadSessionKey} {row : Option UploadRecord}
    {entry : Option (UploadRow (List Component))} (h : Option.Rel (UploadRecord.Holds key) row entry) :
    UploadsKept key row := by
  rintro p conf full now exp a row' rfl hs hst
  obtain ⟨msg, he⟩ | ⟨a', row'', entry', hok, -, -, hsv⟩ := saveUpload_cases h conf full now exp
  · rw [he] at hs
    cases hs
  · rw [hok] at hs
    cases hs
    exact hsv hst

theorem outcomesKept {key : OperationKey} {row : Option OperationRecord}
    {entry : Option OperationRow} (h : Option.Rel OperationRecord.Holds row entry) :
    OutcomesKept key row := by
  intro l o now exp row' hb hc
  cases hv : o.intoStored.validate with
  | error msg => simp [completeOperationRow, hv] at hc
  | ok =>
    have hvl := StoredOutcome.validate_eq_ok_iff.mp hv
    obtain ⟨msg, he⟩ | ⟨a, row'', entry', hok, -, -, hk⟩ :=
      completeOperationRow_cases h key l hb now exp
    · rw [he] at hc
      cases hc
    rw [hok] at hc
    cases hc
    obtain ⟨r, hr, ho⟩ := hk rfl
    exact ⟨r, hr, ho, OperationOutcome.fromStored_intoStored hb hvl⟩

section Purge

variable {key : PurgeJobKey} {row : Option PurgeRecord} {entry : Option (PurgeRow (List Component))}
  (h : Option.Rel (PurgeRecord.Holds key) row entry)

include h

/-- The columns of a row that the store wrote and the job that is loaded from it. -/
theorem exists_ofValue_of_loadPurge {v : PurgeValue} (hl : loadPurge key row = .ok (some v)) :
    v.Valid ∧ v.key = key ∧ ∃ due cre upd, row = some (.ofValue v due cre upd) := by
  cases h with
  | none => cases hl
  | some hh =>
    obtain ⟨v', due, cre, upd, hv, rfl, -, rfl⟩ := hh
    rw [loadPurge_ofValue hv] at hl
    cases hl
    exact ⟨hv, rfl, due, cre, upd, rfl⟩

theorem purgesKept : PurgesKept key row where
  prepared := by
    rintro p conf full now row' rfl hp
    obtain ⟨msg, he⟩ | ⟨a, row'', entry', hok, -, -, hi⟩ := preparePurge_cases h conf full now
    · rw [he] at hp
      cases hp
    · rw [hok] at hp
      cases hp
      exact hi rfl
  ready := by
    intro v trev now hl
    obtain ⟨hv, rfl, due, cre, upd, rfl⟩ := exists_ofValue_of_loadPurge h hl
    rw [readyPurge_ofValue hv]
    split_ifs
    · exact ⟨_, _, rfl, loadPurge_ofValue (hv.ready trev) now cre now⟩
    · exact ⟨_, _, rfl, hl⟩
  claimed := by
    intro v now hl
    obtain ⟨hv, rfl, due, cre, upd, rfl⟩ := exists_ofValue_of_loadPurge h hl
    rw [claimPurge_ofValue hv]
    split_ifs
    · exact ⟨_, _, rfl, .inr ⟨rfl, loadPurge_ofValue hv.claimed due cre now⟩⟩
    · exact ⟨_, _, rfl, .inl ⟨rfl, hl⟩⟩
  retried := by
    intro v att now hl
    obtain ⟨hv, rfl, due, cre, upd, rfl⟩ := exists_ofValue_of_loadPurge h hl
    rw [retryPurge_ofValue hv]
    split_ifs
    · exact ⟨_, _, rfl, loadPurge_ofValue hv.retried att cre now⟩
    · exact ⟨_, _, rfl, hl⟩

end Purge

/-- The validators, the constraints of the schema and the decoders agree. The row of every value that
    passes its validator passes the constraints and decodes to the value. Over the life of every row
    no statement meets a constraint or a row that it cannot read, every row passes the constraints and
    decodes, and what is loaded after a statement is what the statement wrote. -/
theorem stored_rows_round_trip :
    (∀ (v : UploadValue) (updatedAt expiresAt : ℤ), v.validate = .ok () →
      satisfies ((UploadRecord.ofValue v updatedAt expiresAt).checks v.key.row) = true ∧
        decodeUploadRow v.key.row (.ofValue v updatedAt expiresAt) = .ok v) ∧
    (∀ (v : PurgeValue) (nextAttemptAt createdAt updatedAt : ℤ), v.validatePaths = .ok () →
      satisfies ((PurgeRecord.ofValue v nextAttemptAt createdAt updatedAt).checks v.key.row) = true ∧
        decodePurgeRow v.key.row (.ofValue v nextAttemptAt createdAt updatedAt) = .ok v) ∧
    (∀ key, RowsExact (uploadStatement key) (·.checks key.row) (decodeUploadRow key.row)) ∧
    (∀ key, RowsExact (purgeStatement key) (·.checks key.row) (decodePurgeRow key.row)) ∧
    (∀ key, RowsExact (operationStatement key) (·.checks key.row) OperationRecord.decode) ∧
    (∀ key row, (rowMachine (uploadStatement key)).Reachable (fun _ _ => True) row →
      UploadsKept key row) ∧
    (∀ key row, (rowMachine (purgeStatement key)).Reachable (fun _ _ => True) row →
      PurgesKept key row) ∧
    ∀ key row, (rowMachine (operationStatement key)).Reachable (fun _ _ => True) row →
      OutcomesKept key row := by
  refine ⟨fun v updatedAt expiresAt hv => ?_,
    fun v nextAttemptAt createdAt updatedAt hv => ?_, uploadRows_exact, purgeRows_exact,
    operationRows_exact, fun key row hr => ?_, fun key row hr => ?_, fun key row hr => ?_⟩
  · have hvl := UploadValue.validate_eq_ok_iff.mp hv
    exact ⟨UploadRecord.satisfies_ofValue hvl updatedAt expiresAt,
      decodeUploadRow_ofValue hvl updatedAt expiresAt⟩
  · have hvl := PurgeValue.validatePaths_eq_ok_iff.mp hv
    exact ⟨PurgeRecord.satisfies_ofValue hvl nextAttemptAt createdAt updatedAt,
      decodePurgeRow_ofValue hvl nextAttemptAt createdAt updatedAt⟩
  · obtain ⟨entry, he⟩ := held_of_reachable (uploadStatement_refines key) hr
    exact uploadsKept he
  · obtain ⟨entry, he⟩ := held_of_reachable (purgeStatement_refines key) hr
    exact purgesKept he
  · obtain ⟨entry, he⟩ := held_of_reachable (operationStatement_refines key) hr
    exact outcomesKept he

end DufsRam.StateStore
