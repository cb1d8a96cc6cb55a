import DufsRam.StateStore.Record

/-!
# Outcomes of operations in the state database

Model of the outcomes that the operation registry builds (`operation_registry.rs`) and of the columns
of `operations` that keep them. An error code is one of a fixed list of names, which `from_wire_name`
reads back.

`length` of SQLite counts the characters of a text before the first NUL and the validator counts all
of them, so the names matter: no name has a NUL.

Results:
* `OperationOutcome.fromStored_intoStored`: what was stored is what is read.
* `OperationRecord.satisfies_ofRow`, `OperationRecord.intoOutcome_ofRow`: the columns of a row.
-/

namespace DufsRam.StateStore

/-! ## Outcomes -/

/-- `TrackedOperationError` (`operation_registry.rs`, lines 45-77). -/
inductive TrackedOperationError where
  | invalidJson
  | invalidPath
  | pathExists
  | invalidSourcePath
  | invalidDestinationPath
  | sourceEqualsDestination
  | invalidMovePath
  | invalidRenameName
  | invalidRenamePath
  | sourceNotFound
  | sourceRevisionRequired
  | invalidSourceRevision
  | sourceChanged
  | directoryIntoItself
  | destinationExists
  | destinationRevisionRequired
  | invalidDestinationRevision
  | destinationChanged
  | destinationDirectoryNotFound
  | destinationNotDirectory
  | directoryOverwriteForbidden
  | mkdirStateConflict
  | moveStateConflict
  | renameStateConflict
  | targetNotFound
  | deleteStateConflict
  | purgeBacklogFull
  | purgeStateUnavailable
  | deleteTargetChanged
  | deleteNotCommitted
  | outcomeUncertain
deriving DecidableEq

namespace TrackedOperationError

/-- `code().as_str()` (`operation_registry.rs`, lines 363-397; `problem.rs`, lines 67-160). -/
def code : TrackedOperationError → String
  | .invalidJson => "invalid_json"
  | .invalidPath => "invalid_path"
  | .pathExists => "path_exists"
  | .invalidSourcePath => "invalid_source_path"
  | .invalidDestinationPath => "invalid_destination_path"
  | .sourceEqualsDestination => "source_equals_destination"
  | .invalidMovePath => "invalid_move_path"
  | .invalidRenameName => "invalid_rename_name"
  | .invalidRenamePath => "invalid_rename_path"
  | .sourceNotFound => "source_not_found"
  | .sourceRevisionRequired => "source_revision_required"
  | .invalidSourceRevision => "invalid_source_revision"
  | .sourceChanged => "source_changed"
  | .directoryIntoItself => "directory_into_itself"
  | .destinationExists => "destination_exists"
  | .destinationRevisionRequired => "destination_revision_required"
  | .invalidDestinationRevision => "invalid_destination_revision"
  | .destinationChanged => "destination_changed"
  | .destinationDirectoryNotFound => "destination_directory_not_found"
  | .destinationNotDirectory => "destination_not_directory"
  | .directoryOverwriteForbidden => "directory_overwrite_forbidden"
  | .mkdirStateConflict => "mkdir_state_conflict"
  | .moveStateConflict => "move_state_conflict"
  | .renameStateConflict => "rename_state_conflict"
  | .targetNotFound => "target_not_found"
  | .deleteStateConflict => "delete_state_conflict"
  | .purgeBacklogFull => "purge_backlog_full"
  | .purgeStateUnavailable => "purge_state_unavailable"
  | .deleteTargetChanged => "delete_target_changed"
  | .deleteNotCommitted => "delete_not_committed"
  | .outcomeUncertain => "outcome_uncertain"

/-- The table of `from_wire_name` (lines 326-361). -/
def wireNames : List (String × TrackedOperationError) :=
  [("invalid_json", .invalidJson), ("invalid_path", .invalidPath), ("path_exists", .pathExists),
    ("invalid_source_path", .invalidSourcePath),
    ("invalid_destination_path", .invalidDestinationPath),
    ("source_equals_destination", .sourceEqualsDestination),
    ("invalid_move_path", .invalidMovePath), ("invalid_rename_name", .invalidRenameName),
    ("invalid_rename_path", .invalidRenamePath), ("source_not_found", .sourceNotFound),
    ("source_revision_required", .sourceRevisionRequired),
    ("invalid_source_revision", .invalidSourceRevision), ("source_changed", .sourceChanged),
    ("directory_into_itself", .directoryIntoItself), ("destination_exists", .destinationExists),
    ("destination_revision_required", .destinationRevisionRequired),
    ("invalid_destination_revision", .invalidDestinationRevision),
    ("destination_changed", .destinationChanged),
    ("destination_directory_not_found", .destinationDirectoryNotFound),
    ("destination_not_directory", .destinationNotDirectory),
    ("directory_overwrite_forbidden", .directoryOverwriteForbidden),
    ("mkdir_state_conflict", .mkdirStateConflict), ("move_state_conflict", .moveStateConflict),
    ("rename_state_conflict", .renameStateConflict), ("target_not_found", .targetNotFound),
    ("delete_state_conflict", .deleteStateConflict), ("purge_backlog_full", .purgeBacklogFull),
    ("purge_state_unavailable", .purgeStateUnavailable),
    ("delete_target_changed", .deleteTargetChanged),
    ("delete_not_committed", .deleteNotCommitted), ("outcome_uncertain", .outcomeUncertain)]

/-- `from_wire_name`. -/
def fromWireName (value : String) : Option TrackedOperationError := wireNames.lookup value

theorem fromWireName_code (e : TrackedOperationError) : fromWireName e.code = some e := by
  cases e <;> simp [fromWireName, wireNames, code, List.lookup]

/-- Every name has between 1 and 128 characters, and SQLite counts all of them. -/
theorem textLength_code (e : TrackedOperationError) :
    (Sql.between (Sql.textLength (some e.code)) 1 128).passes = true := by
  cases e <;> decide +kernel

end TrackedOperationError

/-- `OperationOutcome` (`operation_registry.rs`, lines 38-42); its state is a terminal one. -/
structure OperationOutcome where
  status : ℕ
  state : StoredTerminalState
  error : Option TrackedOperationError
deriving DecidableEq

namespace OperationOutcome

/-- `success` (lines 248-255). -/
def success (status : ℕ) : OperationOutcome := ⟨status, .succeeded, none⟩

/-- `failure` (lines 257-264). -/
def failure (status : ℕ) (error : TrackedOperationError) : OperationOutcome :=
  ⟨status, .failed, some error⟩

/-- `uncertain` (lines 266-272). -/
def uncertain : OperationOutcome := ⟨500, .unknown, some .outcomeUncertain⟩

/-- The outcomes that the server builds. -/
inductive Built : OperationOutcome → Prop
  | success (status : ℕ) : Built (success status)
  | failure (status : ℕ) (error : TrackedOperationError) : Built (failure status error)
  | uncertain : Built uncertain

/-- `into_stored` (lines 278-291). -/
def intoStored (o : OperationOutcome) : StoredOutcome := ⟨o.status, o.state, o.error.map (·.code)⟩

/-- The error of a stored outcome (lines 301-310). -/
def errorOf (state : StoredTerminalState) (code : Option String) :
    Except String (Option TrackedOperationError) :=
  match code, decide (state = .succeeded) with
  | none, true => .ok none
  | some code, false =>
    match TrackedOperationError.fromWireName code with
    | none => .error "operation store contains an unknown terminal error"
    | some error => .ok (some error)
  | _, _ => .error "operation store contains an incomplete terminal outcome"

/-- `from_stored` (lines 293-322); `StatusCode::from_u16` takes 100 to 999. -/
def fromStored (outcome : StoredOutcome) : Except String OperationOutcome := do
  ensure (100 ≤ outcome.status ∧ outcome.status ≤ 999)
    "operation store contains an invalid HTTP status"
  let error ← errorOf outcome.state outcome.code
  ensure (¬ (outcome.state = .succeeded ∧ ¬ (200 ≤ outcome.status ∧ outcome.status ≤ 299)))
    "operation store contains a non-success status for a success outcome"
  ensure (¬ (outcome.state ≠ .succeeded ∧ 200 ≤ outcome.status ∧ outcome.status ≤ 299))
    "operation store contains a success status for an error outcome"
  return ⟨outcome.status, outcome.state, error⟩

end OperationOutcome

/-- An outcome that the validator accepts. -/
structure StoredOutcome.Valid (o : StoredOutcome) : Prop where
  status : 100 ≤ o.status ∧ o.status ≤ 599
  success : o.state = .succeeded ↔ 200 ≤ o.status ∧ o.status ≤ 299
  code : o.state = .succeeded ↔ o.code = none
  length : ∀ code, o.code = some code → 1 ≤ code.length ∧ code.length ≤ 128

theorem StoredOutcome.validate_eq_ok_iff {o : StoredOutcome} : o.validate = .ok () ↔ o.Valid := by
  obtain ⟨sta, st, code⟩ := o
  have hi : (StoredOutcome.validate ⟨sta, st, code⟩ = .ok ()) ↔
      (100 ≤ sta ∧ sta ≤ 599) ∧ (st = .succeeded ↔ 200 ≤ sta ∧ sta ≤ 299) ∧
        (st = .succeeded ↔ code = none) ∧
        ∀ c, code = some c → 1 ≤ c.length ∧ c.length ≤ 128 := by
    cases st <;> cases code <;> simp [StoredOutcome.validate, ensure_bind_eq_ok, ensure_eq_ok]
  rw [hi]
  exact ⟨fun h => ⟨h.1, h.2.1, h.2.2.1, h.2.2.2⟩,
    fun h => ⟨h.status, h.success, h.code, h.length⟩⟩

/-! ## Columns -/

/-- `OPERATION_RESERVED` and the other states (`state_store.rs`, lines 58-60). -/
def OperationState.toDatabase : OperationState → ℤ
  | .reserved => 0
  | .commitStarted => 1
  | .completed => 2

/-- The columns of a row. -/
def OperationRecord.ofRow (row : OperationRow) : OperationRecord where
  fingerprint := BigEndian.encode 32 row.fingerprint
  leaseToken := BigEndian.encode 16 row.leaseToken
  state := row.state.toDatabase
  terminalState := row.terminalState.map StoredTerminalState.toDatabase
  httpStatus := row.httpStatus.map fun status : ℕ => (status : ℤ)
  errorCode := row.errorCode
  createdAtMs := row.createdAtMs
  updatedAtMs := row.updatedAtMs
  expiresAtMs := row.expiresAtMs

/-- `LoadedOperation::into_outcome` (`operation.rs`, lines 220-236). -/
def OperationRecord.intoOutcome (r : OperationRecord) : Except String StoredOutcome :=
  match r.terminalState, r.httpStatus with
  | none, _ => .error "Completed operation is missing its terminal state"
  | some _, none => .error "Completed operation is missing its HTTP status"
  | some state, some status =>
    if 0 ≤ status ∧ status < 2 ^ 16 then do
      let state ← StoredTerminalState.fromDatabase state
      let outcome : StoredOutcome := ⟨status.toNat, state, r.errorCode⟩
      outcome.validate
      return outcome
    else .error "Completed operation contains an invalid HTTP status"

/-- The rows that the store writes: an active one holds no outcome, and a completed one holds a valid
    outcome that the server built. -/
inductive OperationRow.Sound : OperationRow → Prop
  | active (fingerprint : Digest) (lease : Uuid) (state : OperationState)
      (hstate : state = .reserved ∨ state = .commitStarted) (createdAt updatedAt : ℤ) :
      Sound ⟨fingerprint, lease, state, none, none, none, createdAt, updatedAt, none⟩
  | completed (fingerprint : Digest) (lease : Uuid) (outcome : OperationOutcome)
      (hbuilt : outcome.Built) (hvalid : outcome.intoStored.Valid)
      (createdAt updatedAt expiresAt : ℤ) :
      Sound ⟨fingerprint, lease, .completed, some outcome.state, some outcome.status,
        outcome.intoStored.code, createdAt, updatedAt, some expiresAt⟩

/-- The constraint on completed rows asks for what the validator asks for. -/
theorem StoredOutcome.Valid.completed_eq {o : StoredOutcome} (h : o.Valid) {r : OperationRecord}
    {exp : ℤ} (hst : r.state = 2) (ht : r.terminalState = some o.state.toDatabase)
    (hh : r.httpStatus = some (o.status : ℤ)) (he : r.errorCode = o.code)
    (hex : r.expiresAtMs = some exp) : r.completed = some true := by
  have hsta := h.status
  have hs := h.success
  have hn : o.code.isNone = decide (o.state = .succeeded) := by
    rw [Bool.eq_iff_iff, Option.isNone_iff_eq_none, decide_eq_true_iff, h.code]
  have hr : (100 : ℤ) ≤ o.status ∧ (o.status : ℤ) ≤ 599 := by omega
  have hsc : decide ((200 : ℤ) ≤ o.status ∧ (o.status : ℤ) ≤ 299) =
      decide (o.state = .succeeded) := by
    rw [decide_eq_decide, hs]
    omega
  simp only [OperationRecord.completed, hst, ht, hh, he, hex, Sql.equal_some,
    Sql.isNull, Sql.between_some, Sql.oneOf_some, Sql.Truth.not_some, Sql.Truth.and_some,
    Sql.Truth.or_some, hn, hsc, decide_eq_true hr]
  cases o.state <;> rfl

theorem OperationRecord.satisfies_ofRow {row : OperationRow} (h : row.Sound) (key : OperationKey) :
    satisfies ((OperationRecord.ofRow row).checks (.of key.owner key.id)) = true := by
  have ho := hasLength_encode 32 key.owner
  have hid := hasLength_encode 16 key.id
  have hfp := hasLength_encode 32 row.fingerprint
  have hl := hasLength_encode 16 row.leaseToken
  simp only [satisfies, OperationRecord.checks, OperationRecord.ofRow, RowKey.of, List.all_cons,
    List.all_nil, Bool.and_true, Bool.and_eq_true]
  cases h with
  | active fp l st hs cre upd =>
    refine ⟨ho, hid, hfp, hl, ?_, rfl, rfl, ?_⟩
    · obtain rfl | rfl := hs <;> rfl
    · obtain rfl | rfl := hs <;> rfl
  | completed fp l out hb hv cre upd exp =>
    refine ⟨ho, hid, hfp, hl, rfl, ?_, ?_, ?_⟩
    · cases out.state <;> rfl
    · cases he : out.error with
      | none => simp [OperationOutcome.intoStored, he, Sql.isNull]
      | some err =>
        have hcd : out.intoStored.code = some err.code := by
          simp [OperationOutcome.intoStored, he]
        rw [hcd]
        exact err.textLength_code
    · have hc := hv.completed_eq (r := .ofRow ⟨fp, l, .completed,
        some out.state, some out.status, out.intoStored.code, cre, upd,
        some exp⟩) rfl rfl rfl rfl rfl
      simp only [OperationRecord.ofRow] at hc
      rw [hc]
      rfl

/-- The columns give the outcome that the row holds. -/
theorem OperationRecord.intoOutcome_ofRow (row : OperationRow) :
    (OperationRecord.ofRow row).intoOutcome = row.intoOutcome := by
  simp only [OperationRecord.intoOutcome, OperationRecord.ofRow, OperationRow.intoOutcome]
  cases row.terminalState with
  | none => rfl
  | some st =>
    cases row.httpStatus with
    | none => rfl
    | some sta =>
      simp only [Option.map_some, StoredTerminalState.fromDatabase_toDatabase, ok_bind]
      by_cases hb : sta < 2 ^ 16
      · rw [if_pos hb, if_pos ⟨Int.natCast_nonneg _, by omega⟩, Int.toNat_natCast]
        cases (StoredOutcome.mk sta st row.errorCode).validate with
        | error msg => rfl
        | ok => rfl
      · rw [if_neg hb, if_neg fun h => hb (by omega)]

/-- A valid outcome is read back from the row that it completes. -/
theorem OperationRow.intoOutcome_complete (row : OperationRow) {o : StoredOutcome} (h : o.Valid)
    (now exp : ℤ) : (row.complete o now exp).intoOutcome = .ok o := by
  have hb : o.status < 2 ^ 16 := by
    have := h.status.2
    omega
  have hv := StoredOutcome.validate_eq_ok_iff.mpr h
  simp only [OperationRow.intoOutcome, OperationRow.complete, if_pos hb]
  rw [hv]
  rfl

namespace OperationOutcome

theorem errorOf_code {st : StoredTerminalState} (h : st ≠ .succeeded)
    (err : TrackedOperationError) : errorOf st (some err.code) = .ok (some err) := by
  simp [errorOf, decide_eq_false h, err.fromWireName_code]

/-- A built outcome has an error iff it is not a success. -/
theorem Built.errorOf {o : OperationOutcome} (h : o.Built) :
    errorOf o.state (o.error.map (·.code)) = .ok o.error := by
  cases h with
  | success st => rfl
  | failure st err =>
    have hs : StoredTerminalState.failed ≠ .succeeded := by decide
    exact errorOf_code hs err
  | uncertain =>
    have hs : StoredTerminalState.unknown ≠ .succeeded := by decide
    exact errorOf_code hs .outcomeUncertain

theorem fromStored_intoStored {o : OperationOutcome} (h : o.Built) (hv : o.intoStored.Valid) :
    fromStored o.intoStored = .ok o := by
  have hst : 100 ≤ o.status ∧ o.status ≤ 599 := hv.status
  have hs : o.state = .succeeded ↔ 200 ≤ o.status ∧ o.status ≤ 299 := hv.success
  rw [fromStored, ensure_bind_eq_ok]
  refine ⟨⟨hst.1, ?_⟩, ?_⟩
  · show o.status ≤ 999
    omega
  have he : errorOf o.intoStored.state o.intoStored.code = .ok o.error := h.errorOf
  rw [he, ok_bind, ensure_bind_eq_ok, ensure_bind_eq_ok]
  refine ⟨fun ⟨hsc, hn⟩ => hn (hs.mp hsc), fun ⟨hn, hsc⟩ => hn (hs.mpr hsc), rfl⟩

end OperationOutcome

end DufsRam.StateStore
