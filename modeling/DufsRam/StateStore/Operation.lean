import Mathlib
import DufsRam.Lib.Machine
import DufsRam.Lib.Table

/-!
# The operation table of the state store

Model of `state_store/operation.rs` and of the operation statements of
`recover_database` (`state_store/database.rs`). A statement with a `WHERE` clause is
`Table.updateWhere` or `Table.deleteWhere`; a transaction that returns an error has no
effect, so a method answers `Except String` and hands the new table back only when it
commits. `now` is the reading of the store clock that the method takes.

Results:
* `RowStep`, `step_row`: what one command can do to the row of one key.
-/

namespace DufsRam.StateStore

/-- A SHA-256 digest. -/
abbrev Digest := BitVec 256

/-- A UUID: an operation or upload id, or a lease token. -/
abbrev Uuid := BitVec 128

/-- `OperationKey` (`model.rs`, lines 26-30). -/
structure OperationKey where
  owner : Digest
  id : Uuid
deriving DecidableEq

/-- `StoredTerminalState` (`model.rs`, lines 32-38). -/
inductive StoredTerminalState where
  | succeeded
  | failed
  | unknown
deriving DecidableEq

/-- `StoredOutcome` (`model.rs`, lines 51-56). -/
structure StoredOutcome where
  status : ℕ
  state : StoredTerminalState
  code : Option String
deriving DecidableEq

/-- The uncertain outcome that abandonment and recovery record: `UNKNOWN_STATUS` and
    `UNKNOWN_CODE`. -/
def StoredOutcome.uncertain : StoredOutcome := ⟨500, .unknown, some "outcome_uncertain"⟩

/-- `ensure!(condition, message)`. -/
def ensure (condition : Prop) [Decidable condition] (message : String) : Except String Unit :=
  if condition then .ok () else .error message

/-- `StoredOutcome::validate` (`model.rs`, lines 68-103); `MAX_ERROR_CODE_CHARS` is 128. -/
def StoredOutcome.validate (o : StoredOutcome) : Except String Unit := do
  ensure (100 ≤ o.status ∧ o.status ≤ 599) "Stored operation status must be a valid HTTP status"
  match o.state with
  | .succeeded =>
    ensure (200 ≤ o.status ∧ o.status ≤ 299)
      "A succeeded operation must have a successful HTTP status"
    ensure (o.code = none) "A succeeded operation cannot have an error code"
  | .failed | .unknown =>
    ensure (¬ (200 ≤ o.status ∧ o.status ≤ 299))
      "A failed or unknown operation cannot have a successful HTTP status"
    ensure (o.code ≠ none) "A failed or unknown operation must have an error code"
  match o.code with
  | none => .ok ()
  | some code =>
    ensure (1 ≤ code.length ∧ code.length ≤ 128) "Stored operation error code is empty or too long"

/-- The values of the `state` column. -/
inductive OperationState where
  | reserved
  | commitStarted
  | completed
deriving DecidableEq

/-- A row of the table `operations`. -/
structure OperationRow where
  fingerprint : Digest
  leaseToken : Uuid
  state : OperationState
  terminalState : Option StoredTerminalState
  httpStatus : Option ℕ
  errorCode : Option String
  createdAtMs : ℤ
  updatedAtMs : ℤ
  expiresAtMs : Option ℤ
deriving DecidableEq

abbrev Operations := Table OperationKey OperationRow

/-- The fields of `Limits` that operations read (`state_store.rs`, lines 212-221). -/
structure Limits where
  capacity : ℕ
  perOwner : ℕ
  ttlMs : ℤ
deriving Repr

/-- `StoreBegin` (`model.rs`, lines 106-113). -/
inductive StoreBegin where
  | started (lease : Uuid)
  | running
  | replay (outcome : StoredOutcome)
  | conflict
  | full
deriving DecidableEq

/-- `StoreStatus` (`model.rs`, lines 115-120). -/
inductive StoreStatus where
  | running
  | completed (outcome : StoredOutcome)
  | notFound
deriving DecidableEq

/-! ## The commands -/

/-- `expiration_time` (`state_store.rs`, lines 1186-1189): `checked_add` on `i64`. -/
def expirationTime (now ttlMs : ℤ) : Except String ℤ :=
  if -2 ^ 63 ≤ now + ttlMs ∧ now + ttlMs < 2 ^ 63 then .ok (now + ttlMs)
  else .error "Operation expiration time overflowed"

/-- `LoadedOperation::into_outcome` (`operation.rs`, lines 220-236). -/
def OperationRow.intoOutcome (row : OperationRow) : Except String StoredOutcome :=
  match row.terminalState, row.httpStatus with
  | none, _ => .error "Completed operation is missing its terminal state"
  | some _, none => .error "Completed operation is missing its HTTP status"
  | some state, some status =>
    if status < 2 ^ 16 then
      (StoredOutcome.validate ⟨status, state, row.errorCode⟩).map fun _ =>
        ⟨status, state, row.errorCode⟩
    else .error "Completed operation contains an invalid HTTP status"

/-- `state = completed AND expires_at_ms <= now`. -/
def OperationRow.isExpired (row : OperationRow) (now : ℤ) : Bool :=
  decide (row.state = .completed) && row.expiresAtMs.any fun expiresAt => decide (expiresAt ≤ now)

/-- `purge_expired` (`operation.rs`, lines 275-289). -/
def purgeExpired (ops : Operations) (now : ℤ) : Operations :=
  ops.deleteWhere fun _ row => row.isExpired now

/-- The `SET` list that makes a row completed. -/
def OperationRow.complete (row : OperationRow) (outcome : StoredOutcome) (now expiresAt : ℤ) :
    OperationRow :=
  { row with
    state := .completed
    terminalState := some outcome.state
    httpStatus := some outcome.status
    errorCode := outcome.code
    updatedAtMs := now
    expiresAtMs := some expiresAt }

/-- The condition `owner_digest = … AND operation_id = … AND lease_token = … AND state IN …`. -/
def leaseIn (key : OperationKey) (lease : Uuid) (states : List OperationState)
    (key' : OperationKey) (row : OperationRow) : Bool :=
  decide (key' = key) && decide (row.leaseToken = lease) && decide (row.state ∈ states)

/-- The row that `begin_operation` inserts. -/
def OperationRow.new (fingerprint : Digest) (lease : Uuid) (now : ℤ) : OperationRow :=
  { fingerprint := fingerprint, leaseToken := lease, state := .reserved,
    terminalState := none, httpStatus := none, errorCode := none,
    createdAtMs := now, updatedAtMs := now, expiresAtMs := none }

/-- `begin_operation` (`operation.rs`, lines 4-63); `lease` is the new UUID. -/
def beginOperation (limits : Limits) (now : ℤ) (lease : Uuid) (ops : Operations)
    (key : OperationKey) (fingerprint : Digest) : Except String (StoreBegin × Operations) :=
  let ops := purgeExpired ops now
  match ops.get key with
  | some existing =>
    if existing.fingerprint ≠ fingerprint then .ok (.conflict, ops)
    else
      match existing.state with
      | .reserved | .commitStarted => .ok (.running, ops)
      | .completed => existing.intoOutcome.map fun outcome => (.replay outcome, ops)
  | none =>
    let globalCount := ops.countWhere fun _ _ => true
    let ownerCount := ops.countWhere fun key' _ => decide (key'.owner = key.owner)
    if limits.capacity ≤ globalCount ∨ limits.perOwner ≤ ownerCount then .ok (.full, ops)
    else .ok (.started lease, ops.put key (.new fingerprint lease now))

/-- `operation_status` (`operation.rs`, lines 65-82). -/
def operationStatus (now : ℤ) (ops : Operations) (key : OperationKey) :
    Except String (StoreStatus × Operations) :=
  let ops := purgeExpired ops now
  match ops.get key with
  | some operation =>
    match operation.state with
    | .reserved | .commitStarted => .ok (.running, ops)
    | .completed => operation.intoOutcome.map fun outcome => (.completed outcome, ops)
  | none => .ok (.notFound, ops)

/-- `mark_operation_commit_started` (`operation.rs`, lines 84-112). -/
def markOperationCommitStarted (now : ℤ) (ops : Operations) (key : OperationKey) (lease : Uuid) :
    Bool × Operations :=
  let reserved := leaseIn key lease [.reserved]
  (decide (ops.countWhere reserved = 1),
    ops.updateWhere reserved fun row => { row with state := .commitStarted, updatedAtMs := now })

/-- `complete_operation` (`operation.rs`, lines 114-155). -/
def completeOperation (limits : Limits) (now : ℤ) (ops : Operations) (key : OperationKey)
    (lease : Uuid) (outcome : StoredOutcome) : Except String (Bool × Operations) :=
  (expirationTime now limits.ttlMs).map fun expiresAt =>
    let active := leaseIn key lease [.reserved, .commitStarted]
    (decide (ops.countWhere active = 1),
      ops.updateWhere active fun row => row.complete outcome now expiresAt)

/-- `abandon_operation` (`operation.rs`, lines 157-208). -/
def abandonOperation (limits : Limits) (now : ℤ) (ops : Operations) (key : OperationKey)
    (lease : Uuid) : Except String Operations :=
  (expirationTime now limits.ttlMs).map fun expiresAt =>
    let reserved := leaseIn key lease [.reserved]
    if ops.countWhere reserved = 0 then
      (ops.deleteWhere reserved).updateWhere (leaseIn key lease [.commitStarted])
        fun row => row.complete .uncertain now expiresAt
    else ops.deleteWhere reserved

/-- What those of `recover_database` make of a row. -/
def OperationRow.recover (row : OperationRow) (now expiresAt : ℤ) : Option OperationRow :=
  if row.isExpired now then none
  else
    match row.state with
    | .reserved => none
    | .commitStarted => some (row.complete .uncertain now expiresAt)
    | .completed =>
      some (if row.expiresAtMs.any fun expires => decide (expiresAt < expires) then
        { row with expiresAtMs := some expiresAt } else row)

/-- The statements of `recover_database` on `operations` (`database.rs`, lines 1454-1491). -/
def recoverOperations (limits : Limits) (now : ℤ) (ops : Operations) : Except String Operations :=
  (expirationTime now limits.ttlMs).map fun expiresAt =>
    let ops := purgeExpired ops now
    let ops := ops.deleteWhere fun _ row => decide (row.state = .reserved)
    let ops := ops.updateWhere (fun _ row => decide (row.state = .commitStarted))
      fun row => row.complete .uncertain now expiresAt
    ops.updateWhere
      (fun _ row => decide (row.state = .completed) &&
        row.expiresAtMs.any fun expires => decide (expiresAt < expires))
      fun row => { row with expiresAtMs := some expiresAt }

/-! ## Runs of the store -/

/-- What the actor executes: a command of the queue, an abandonment of the control
    channel or of the deferred list, the recovery at a restart, or a command whose
    transaction fails. Nothing relates the order of execution to the order of
    submission. -/
inductive Command where
  | begin (key : OperationKey) (fingerprint : Digest) (lease : Uuid)
  | status (key : OperationKey)
  | markCommitStarted (key : OperationKey) (lease : Uuid)
  | complete (key : OperationKey) (lease : Uuid) (outcome : StoredOutcome)
  | abandon (key : OperationKey) (lease : Uuid)
  | recover
  | failed
deriving DecidableEq

/-- The lease that a command carries. -/
def Command.lease? : Command → Option Uuid
  | .markCommitStarted _ lease | .complete _ lease _ | .abandon _ lease => some lease
  | _ => none

/-- A command and the time the store clock gives it. -/
structure Event where
  command : Command
  now : ℤ
deriving DecidableEq

/-- The table, the last reading of the store clock, and, as ghost state, the leases
    issued so far, oldest first. -/
structure Store where
  operations : Operations
  clock : ℤ
  issued : List Uuid

/-- Commit the transaction if it succeeded. -/
def Store.commit (s : Store) (now : ℤ) : Except String Operations → Store
  | .ok ops => { s with operations := ops, clock := now }
  | .error _ => { s with clock := now }

/-- The leases that an answer of `begin_operation` adds. -/
def StoreBegin.issues : Except String (StoreBegin × Operations) → List Uuid
  | .ok (.started lease, _) => [lease]
  | _ => []

/-- Execute one command. The store clock does not go back. -/
def Store.step (limits : Limits) (s : Store) (e : Event) : Option Store :=
  if e.now < s.clock then none
  else
    match e.command with
    | .begin key fingerprint lease =>
      let result := beginOperation limits e.now lease s.operations key fingerprint
      some { s.commit e.now (result.map Prod.snd) with
        issued := s.issued ++ StoreBegin.issues result }
    | .status key => some (s.commit e.now ((operationStatus e.now s.operations key).map Prod.snd))
    | .markCommitStarted key lease =>
      some (s.commit e.now (.ok (markOperationCommitStarted e.now s.operations key lease).2))
    | .complete key lease outcome =>
      some (s.commit e.now
        ((completeOperation limits e.now s.operations key lease outcome).map Prod.snd))
    | .abandon key lease =>
      some (s.commit e.now (abandonOperation limits e.now s.operations key lease))
    | .recover => some (s.commit e.now (recoverOperations limits e.now s.operations))
    | .failed => some { s with clock := e.now }

/-- The empty store at time `start`. -/
def operationMachine (limits : Limits) (start : ℤ) : Machine Store Event where
  init := { operations := .empty, clock := start, issued := [] }
  step := Store.step limits

/-- Every new lease is a UUID that was never issued before. -/
def UniqueLeases (s : Store) (e : Event) : Prop :=
  ∀ key fingerprint lease, e.command = .begin key fingerprint lease → lease ∉ s.issued

/-! ## One command and the row of one key -/

/-- Everything a command can do to the row of `key`. -/
inductive RowStep (e : Event) (key : OperationKey) :
    Option OperationRow → Option OperationRow → Prop
  | same (before : Option OperationRow) : RowStep e key before before
  | purged {row : OperationRow} (he : e.command.lease? = none) (hx : row.isExpired e.now = true) :
      RowStep e key (some row) none
  | started {before : Option OperationRow} {fingerprint : Digest} {lease : Uuid}
      (he : e.command = .begin key fingerprint lease)
      (hb : ∀ row, before = some row → row.isExpired e.now = true) :
      RowStep e key before (some (.new fingerprint lease e.now))
  | marked {row : OperationRow} (he : e.command = .markCommitStarted key row.leaseToken)
      (hs : row.state = .reserved) :
      RowStep e key (some row) (some { row with state := .commitStarted, updatedAtMs := e.now })
  | completed {row : OperationRow} {outcome : StoredOutcome} (expiresAt : ℤ)
      (he : e.command = .complete key row.leaseToken outcome) (hs : row.state ≠ .completed) :
      RowStep e key (some row) (some (row.complete outcome e.now expiresAt))
  | removed {row : OperationRow}
      (he : e.command = .abandon key row.leaseToken ∨ e.command = .recover)
      (hs : row.state = .reserved) : RowStep e key (some row) none
  | uncertain {row : OperationRow} (expiresAt : ℤ)
      (he : e.command = .abandon key row.leaseToken ∨ e.command = .recover)
      (hs : row.state = .commitStarted) :
      RowStep e key (some row) (some (row.complete .uncertain e.now expiresAt))
  | clamped {row : OperationRow} (expiresAt : ℤ) (he : e.command = .recover)
      (hs : row.state = .completed) :
      RowStep e key (some row) (some { row with expiresAtMs := some expiresAt })

variable {key key' : OperationKey} {lease : Uuid} {e : Event} {ops ops' : Operations}
  {limits : Limits} {s s' : Store}

/-- A call that succeeds has computed its expiration. -/
theorem exists_of_map_eq_ok {α β : Type} {x : Except String α} {f : α → β} {b : β}
    (h : x.map f = .ok b) : ∃ a, x = .ok a ∧ f a = b := by
  cases x with
  | error msg => cases h
  | ok a => exact ⟨a, rfl, Except.ok.inj h⟩

theorem leaseIn_iff {states : List OperationState} {row : OperationRow} :
    leaseIn key lease states key' row = true ↔
      key' = key ∧ row.leaseToken = lease ∧ row.state ∈ states := by
  simp [leaseIn, and_assoc]

theorem RowStep.purge (he : e.command.lease? = none) (before : Option OperationRow) :
    RowStep e key before (before.filter fun row => !row.isExpired e.now) := by
  cases before with
  | none => exact .same none
  | some row =>
    rw [Option.filter_some]
    split_ifs with hx
    · exact .same (some row)
    · exact .purged he (by simpa using hx)

theorem purgeExpired_get (ops : Operations) (now : ℤ) (key : OperationKey) :
    (purgeExpired ops now).get key = (ops.get key).filter fun row => !row.isExpired now := by
  rw [purgeExpired, Table.get_deleteWhere]
  cases ops.get key with
  | none => rfl
  | some row => cases hx : row.isExpired now <;> simp [hx, Option.filter_some]

theorem purgeExpired_row (he : e.command.lease? = none) (key : OperationKey) (ops : Operations) :
    RowStep e key (ops.get key) ((purgeExpired ops e.now).get key) :=
  purgeExpired_get ops e.now key ▸ .purge he _

/-- A key without a row after the purge had none, or an expired one. -/
theorem purgeExpired_eq_none {now : ℤ} (h : (purgeExpired ops now).get key = none)
    (row : OperationRow) (hr : ops.get key = some row) : row.isExpired now = true := by
  simpa [purgeExpired_get, hr] using h

/-- A live row survives the purge. -/
theorem purgeExpired_of_live {now : ℤ} {row : OperationRow} (hr : ops.get key = some row)
    (hx : row.isExpired now = false) :
    (purgeExpired ops now).get key = some row := by
  simp [purgeExpired_get, hr, hx]

/-- `begin_operation` either only purges, or inserts a new row under a free key. -/
theorem beginOperation_cases {now : ℤ} {fp : Digest} {a : StoreBegin}
    (h : beginOperation limits now lease ops key fp = .ok (a, ops')) :
    (ops' = purgeExpired ops now ∧ ∀ l, a ≠ .started l) ∨
      (a = .started lease ∧ (purgeExpired ops now).get key = none ∧
        ops' = (purgeExpired ops now).put key (.new fp lease now)) := by
  unfold beginOperation at h
  dsimp only at h
  split at h
  · rename_i old hg
    split_ifs at h with hfp
    · obtain ⟨rfl, rfl⟩ := Prod.mk.inj (Except.ok.inj h)
      exact .inl ⟨rfl, nofun⟩
    cases hs : old.state with
    | reserved | commitStarted =>
      rw [hs] at h
      obtain ⟨rfl, rfl⟩ := Prod.mk.inj (Except.ok.inj h)
      exact .inl ⟨rfl, nofun⟩
    | completed =>
      rw [hs] at h
      obtain ⟨out, -, ho⟩ := exists_of_map_eq_ok h
      obtain ⟨rfl, rfl⟩ := Prod.mk.inj ho
      exact .inl ⟨rfl, nofun⟩
  · rename_i hg
    split_ifs at h with hf
    · obtain ⟨rfl, rfl⟩ := Prod.mk.inj (Except.ok.inj h)
      exact .inl ⟨rfl, nofun⟩
    · obtain ⟨rfl, rfl⟩ := Prod.mk.inj (Except.ok.inj h)
      exact .inr ⟨rfl, hg, rfl⟩

theorem beginOperation_row {fp : Digest} (he : e.command = .begin key fp lease) {a : StoreBegin}
    (h : beginOperation limits e.now lease ops key fp = .ok (a, ops')) :
    RowStep e key' (ops.get key') (ops'.get key') := by
  have hl : e.command.lease? = none := by rw [he]; rfl
  rcases beginOperation_cases h with ⟨rfl, -⟩ | ⟨-, hf, rfl⟩
  · exact purgeExpired_row hl key' ops
  rw [Table.get_put]
  split_ifs with hk
  · subst hk
    exact .started he fun row hr => purgeExpired_eq_none hf row hr
  · exact purgeExpired_row hl key' ops

theorem operationStatus_row (he : e.command = .status key) {a : StoreStatus}
    (h : operationStatus e.now ops key = .ok (a, ops')) :
    RowStep e key' (ops.get key') (ops'.get key') := by
  have hop : ops' = purgeExpired ops e.now := by
    unfold operationStatus at h
    dsimp only at h
    split at h
    · rename_i op hg
      cases hs : op.state with
      | reserved | commitStarted => rw [hs] at h; exact (Prod.mk.inj (Except.ok.inj h)).2.symm
      | completed =>
        rw [hs] at h
        obtain ⟨out, -, ho⟩ := exists_of_map_eq_ok h
        exact (Prod.mk.inj ho).2.symm
    · exact (Prod.mk.inj (Except.ok.inj h)).2.symm
  rw [hop]
  exact purgeExpired_row (by rw [he]; rfl) key' ops

/-- A statement whose `WHERE` clause names a key and its lease. -/
theorem updateWhere_row {states : List OperationState} {f : OperationRow → OperationRow}
    (ops : Operations)
    (h : ∀ row, row.leaseToken = lease → row.state ∈ states → RowStep e key (some row) (some (f row))) :
    RowStep e key' (ops.get key') ((ops.updateWhere (leaseIn key lease states) f).get key') := by
  rw [Table.get_updateWhere]
  cases ops.get key' with
  | none => exact .same none
  | some row =>
    rw [Option.map_some]
    split_ifs with hp
    · obtain ⟨rfl, hl, hs⟩ := leaseIn_iff.mp hp
      exact h row hl hs
    · exact .same (some row)

theorem markOperationCommitStarted_row (he : e.command = .markCommitStarted key lease)
    (ops : Operations) :
    RowStep e key' (ops.get key')
      ((markOperationCommitStarted e.now ops key lease).2.get key') := by
  refine updateWhere_row ops fun row hl hs => ?_
  subst hl
  exact .marked he (List.mem_singleton.mp hs)

theorem completeOperation_row {out : StoredOutcome}
    (he : e.command = .complete key lease out) {chg : Bool}
    (h : completeOperation limits e.now ops key lease out = .ok (chg, ops')) :
    RowStep e key' (ops.get key') (ops'.get key') := by
  obtain ⟨exp, -, hx⟩ := exists_of_map_eq_ok h
  obtain ⟨-, rfl⟩ := Prod.mk.inj hx
  refine updateWhere_row ops fun row hl hs => ?_
  subst hl
  refine .completed exp he fun hc => ?_
  rw [hc] at hs
  simp at hs

theorem abandonOperation_row (he : e.command = .abandon key lease)
    (h : abandonOperation limits e.now ops key lease = .ok ops') :
    RowStep e key' (ops.get key') (ops'.get key') := by
  obtain ⟨exp, -, hx⟩ := exists_of_map_eq_ok h
  dsimp only at hx
  split_ifs at hx with hn
  · -- Nothing was deleted, so the update sees the table as it was.
    have hg : (ops.deleteWhere (leaseIn key lease [.reserved])).get key' = ops.get key' := by
      rw [Table.get_deleteWhere]
      cases hr : ops.get key' with
      | none => rfl
      | some row =>
        rw [Option.bind_some, if_neg]
        intro hp
        have := Table.countWhere_pos_iff.mpr ⟨key', row, hr, hp⟩
        omega
    rw [← hx, ← hg]
    refine updateWhere_row _ fun row hl hs => ?_
    subst hl
    exact .uncertain exp (.inl he) (List.mem_singleton.mp hs)
  · rw [← hx, Table.get_deleteWhere]
    cases ops.get key' with
    | none => exact .same none
    | some row =>
      rw [Option.bind_some]
      split_ifs with hp
      · obtain ⟨rfl, rfl, hs⟩ := leaseIn_iff.mp hp
        exact .removed (.inl he) (List.mem_singleton.mp hs)
      · exact .same (some row)

/-- The recovery works row by row. -/
theorem recoverOperations_get {now : ℤ} (h : recoverOperations limits now ops = .ok ops') :
    ∃ exp, expirationTime now limits.ttlMs = .ok exp ∧
      ∀ key, ops'.get key = (ops.get key).bind (·.recover now exp) := by
  obtain ⟨exp, ht, rfl⟩ := exists_of_map_eq_ok h
  refine ⟨exp, ht, fun key => ?_⟩
  simp only [purgeExpired, Table.get_updateWhere, Table.get_deleteWhere]
  cases ops.get key with
  | none => rfl
  | some row =>
    by_cases hx : row.isExpired now = true
    · simp [OperationRow.recover, hx]
    -- The new expiration is not above itself, so the last statement keeps a row just completed.
    · cases hs : row.state <;> simp [OperationRow.recover, hx, hs, OperationRow.complete]

theorem RowStep.recover (he : e.command = .recover) (row : OperationRow) (exp : ℤ) :
    RowStep e key (some row) (row.recover e.now exp) := by
  unfold OperationRow.recover
  split
  · next hx => exact .purged (by rw [he]; rfl) hx
  split
  · next hs => exact .removed (.inr he) hs
  · next hs => exact .uncertain exp (.inr he) hs
  · next hs =>
    split_ifs
    · exact .clamped exp he hs
    · exact .same (some row)

theorem recoverOperations_row (he : e.command = .recover)
    (h : recoverOperations limits e.now ops = .ok ops') :
    RowStep e key (ops.get key) (ops'.get key) := by
  obtain ⟨exp, -, hg⟩ := recoverOperations_get h
  rw [hg]
  cases ops.get key with
  | none => exact .same none
  | some row => exact .recover he row exp

/-- A step reads the clock, commits what a command does to each row, and issues at most the lease
    that `begin_operation` was given. -/
theorem step_cases (h : s.step limits e = some s') : s.clock ≤ e.now ∧ ∃ r issued,
    s' = { s.commit e.now r with issued := s.issued ++ issued } ∧
    (∀ ops, r = .ok ops → ∀ key, RowStep e key (s.operations.get key) (ops.get key)) ∧
    (issued = [] ∨ ∃ key fp lease, e.command = .begin key fp lease ∧ issued = [lease]) := by
  unfold Store.step at h
  split_ifs at h with hc
  refine ⟨not_lt.mp hc, ?_⟩
  have hn : ∀ r, some (s.commit e.now r) = some s' →
      s' = { s.commit e.now r with issued := s.issued ++ [] } := by
    rintro (_ | _) hs <;> rw [← Option.some.inj hs, List.append_nil] <;> rfl
  cases he : e.command with
  | begin key' fp lease =>
    rw [he] at h
    refine ⟨_, _, (Option.some.inj h).symm, fun ops ho key => ?_, ?_⟩
    · obtain ⟨r, hr, rfl⟩ := exists_of_map_eq_ok ho
      exact beginOperation_row he hr
    · cases hr : beginOperation limits e.now lease s.operations key' fp with
      | error msg => exact .inl rfl
      | ok r =>
        obtain ⟨a, ops⟩ := r
        rcases beginOperation_cases hr with ⟨-, ha⟩ | ⟨rfl, -, -⟩
        · cases a with
          | started l => exact absurd rfl (ha l)
          | _ => exact .inl rfl
        · exact .inr ⟨key', fp, lease, rfl, rfl⟩
  | status key' =>
    rw [he] at h
    refine ⟨_, [], hn _ h, fun ops ho key => ?_, .inl rfl⟩
    obtain ⟨r, hr, rfl⟩ := exists_of_map_eq_ok ho
    exact operationStatus_row he hr
  | markCommitStarted key' lease =>
    rw [he] at h
    refine ⟨_, [], hn _ h, fun ops ho key => ?_, .inl rfl⟩
    exact Except.ok.inj ho ▸ markOperationCommitStarted_row he s.operations
  | complete key' lease out =>
    rw [he] at h
    refine ⟨_, [], hn _ h, fun ops ho key => ?_, .inl rfl⟩
    obtain ⟨r, hr, rfl⟩ := exists_of_map_eq_ok ho
    exact completeOperation_row he hr
  | abandon key' lease =>
    rw [he] at h
    exact ⟨_, [], hn _ h, fun ops ho key => abandonOperation_row he ho, .inl rfl⟩
  | recover =>
    rw [he] at h
    exact ⟨_, [], hn _ h, fun ops ho key => recoverOperations_row he ho, .inl rfl⟩
  | failed =>
    rw [he] at h
    exact ⟨.error "", [], hn (.error "") h, fun ops ho => (by cases ho), .inl rfl⟩

/-- What a step does to the row of each key. -/
theorem step_row (h : s.step limits e = some s') (key : OperationKey) :
    RowStep e key (s.operations.get key) (s'.operations.get key) := by
  obtain ⟨-, r, issued, rfl, hr, -⟩ := step_cases h
  cases r with
  | error msg => exact .same _
  | ok ops => exact hr ops rfl key

/-- A step issues at most the lease that `begin_operation` was given. -/
theorem step_issued (h : s.step limits e = some s') : s'.issued = s.issued ∨
      ∃ key fp lease, e.command = .begin key fp lease ∧
        s'.issued = s.issued ++ [lease] := by
  obtain ⟨-, r, issued, rfl, -, rfl | ⟨key, fp, lease, he, rfl⟩⟩ := step_cases h
  · exact .inl (List.append_nil _)
  · exact .inr ⟨key, fp, lease, he, rfl⟩

theorem step_clock (h : s.step limits e = some s') : s.clock ≤ e.now ∧ s'.clock = e.now := by
  obtain ⟨hc, r, issued, rfl, -⟩ := step_cases h
  cases r <;> exact ⟨hc, rfl⟩

end DufsRam.StateStore
