import DufsRam.Lib.Transaction
import DufsRam.StateStore.RoundTrip

/-!
# The recovery of the whole database

`recover_database` runs when the store is opened: eight bulk statements on the three tables, in one
transaction, each of which sees the rows that the statements before it wrote. The tables hold all
columns and carry the constraints of the schema, so that a recovery that changes nothing changes no
column at all.

Results:
* `Database.execute_recovery`: the statements are never refused, and the database they leave.
* `Database.get_operation_recovered` and its siblings: the row of a key afterwards, from the row
  before.
* `Database.Settled`: what recovery establishes, and what a second recovery finds.
* `recoverDatabase_refines`: on columns that hold the typed tables, it does what the recovery of each
  of these does.
* `recoverDatabase_settles`: recovery is atomic and idempotent and keeps what it must keep.
-/

namespace DufsRam.StateStore

/-! ## Tables and statements -/

/-- The rows of `operations` under the constraints of the schema. -/
abbrev OperationRecords :=
  Constrained RowKey OperationRecord fun key r => satisfies (r.checks key)

/-- The rows of `upload_sessions`. -/
abbrev UploadRecords := Constrained RowKey UploadRecord fun key r => satisfies (r.checks key)

/-- The rows of `purge_jobs`. -/
abbrev PurgeRecords := Constrained RowKey PurgeRecord fun key r => satisfies (r.checks key)

/-- The tables that recovery reads and writes. -/
structure Database where
  operations : OperationRecords
  uploadSessions : UploadRecords
  purgeJobs : PurgeRecords

/-- Why a recovery failed. -/
inductive RecoveryError where
  | expiration (message : String)
  | constraint
  | engine (message : String)
deriving DecidableEq

namespace Database

/-- A `DELETE` on `operations`. -/
def deleteOperations (p : OperationRecord → Bool) (db : Database) :
    Except RecoveryError Database :=
  .ok { db with operations := db.operations.delete p }

/-- An `UPDATE` of `operations`. -/
def updateOperations (p : OperationRecord → Bool) (f : OperationRecord → OperationRecord)
    (db : Database) : Except RecoveryError Database :=
  match db.operations.update p f with
  | some operations => .ok { db with operations }
  | none => .error .constraint

/-- An `UPDATE` of `upload_sessions`. -/
def updateUploadSessions (p : UploadRecord → Bool) (f : UploadRecord → UploadRecord)
    (db : Database) : Except RecoveryError Database :=
  match db.uploadSessions.update p f with
  | some uploadSessions => .ok { db with uploadSessions }
  | none => .error .constraint

/-- An `UPDATE` of `purge_jobs`. -/
def updatePurgeJobs (p : PurgeRecord → Bool) (f : PurgeRecord → PurgeRecord)
    (db : Database) : Except RecoveryError Database :=
  match db.purgeJobs.update p f with
  | some purgeJobs => .ok { db with purgeJobs }
  | none => .error .constraint

end Database

namespace OperationRecord

/-- `state = 2 AND expires_at_ms > ?1`: a comparison with NULL selects nothing. -/
def expiresAfter (limit : ℤ) (r : OperationRecord) : Bool :=
  decide (r.state = 2) && r.expiresAtMs.any fun expiresAt => decide (limit < expiresAt)

/-- `SET expires_at_ms = ?1`. -/
def expireAt (limit : ℤ) (r : OperationRecord) : OperationRecord :=
  { r with expiresAtMs := some limit }

end OperationRecord

namespace UploadRecord

/-- `SET state = ?1, updated_at_ms = ?2, expires_at_ms = ?3`. -/
def abandon (now expiresAt : ℤ) (r : UploadRecord) : UploadRecord :=
  { r with
    state := 4
    updatedAtMs := now
    expiresAtMs := expiresAt }

/-- `SET expires_at_ms = ?1`. -/
def expireAt (limit : ℤ) (r : UploadRecord) : UploadRecord := { r with expiresAtMs := limit }

end UploadRecord

namespace PurgeRecord

/-- `SET state = ?1, next_attempt_at_ms = ?2, updated_at_ms = ?2`. -/
def release (now : ℤ) (r : PurgeRecord) : PurgeRecord :=
  { r with
    state := 1
    nextAttemptAtMs := now
    updatedAtMs := now }

/-- `SET next_attempt_at_ms = ?1, updated_at_ms = ?1`. -/
def scheduleAt (now : ℤ) (r : PurgeRecord) : PurgeRecord :=
  { r with
    nextAttemptAtMs := now
    updatedAtMs := now }

end PurgeRecord

/-- The statements of `recover_database` (`state_store/database.rs`, lines 1457-1537), the first of
    which is `purge_expired` (`state_store/operation.rs`, lines 275-289). -/
def recoveryStatements (now operationExpiresAt uploadExpiresAt : ℤ) :
    List (Database → Except RecoveryError Database) :=
  [Database.deleteOperations fun r => r.isExpired now,
    Database.deleteOperations fun r => decide (r.state = 0),
    Database.updateOperations (fun r => decide (r.state = 1))
      fun r => r.complete .uncertain now operationExpiresAt,
    Database.updateOperations (OperationRecord.expiresAfter operationExpiresAt)
      (OperationRecord.expireAt operationExpiresAt),
    Database.updateUploadSessions (fun r => decide (r.state = 1))
      (UploadRecord.abandon now uploadExpiresAt),
    Database.updateUploadSessions (fun r => decide (uploadExpiresAt < r.expiresAtMs))
      (UploadRecord.expireAt uploadExpiresAt),
    Database.updatePurgeJobs (fun r => decide (r.state = 2)) (PurgeRecord.release now),
    Database.updatePurgeJobs (fun r => decide (r.state = 1 ∧ now < r.nextAttemptAtMs))
      (PurgeRecord.scheduleAt now)]

/-- `recover_database` (`state_store/database.rs`, lines 1448-1540). Both expirations are computed
    before the transaction begins; `faults` says where SQLite fails on its own. -/
def recoverDatabase (operationTtlMs uploadTtlMs now : ℤ) (faults : ℕ → Option RecoveryError)
    (db : Database) : Except RecoveryError Unit × Database :=
  match expirationTime now operationTtlMs with
  | .error message => (.error (.expiration message), db)
  | .ok operationExpiresAt =>
    match expirationTime now uploadTtlMs with
    | .error message => (.error (.expiration message), db)
    | .ok uploadExpiresAt =>
      transaction faults (recoveryStatements now operationExpiresAt uploadExpiresAt) db

/-! ## The statements keep the constraints -/

theorem OperationRecord.keeps_complete (now expiresAt : ℤ) :
    Constrained.Keeps (fun key (r : OperationRecord) => satisfies (r.checks key))
      (fun r => decide (r.state = 1)) fun r => r.complete .uncertain now expiresAt := by
  intro key r hc _
  simp only [satisfies, OperationRecord.checks, List.all_cons, List.all_nil, Bool.and_true,
    Bool.and_eq_true] at hc ⊢
  obtain ⟨ho, hid, hfp, hl, -⟩ := hc
  have hcd : ((Sql.isNull StoredOutcome.uncertain.code).or
      (Sql.between (Sql.textLength StoredOutcome.uncertain.code) 1 128)).passes = true := by decide
  exact ⟨ho, hid, hfp, hl, rfl, rfl, hcd, rfl⟩

theorem OperationRecord.keeps_expireAt (n : ℤ) :
    Constrained.Keeps (fun key (r : OperationRecord) => satisfies (r.checks key))
      (OperationRecord.expiresAfter n) (OperationRecord.expireAt n) := by
  intro key r hc hl
  simp only [OperationRecord.expiresAfter, Bool.and_eq_true, Option.any_eq_true] at hl
  obtain ⟨-, exp, he, -⟩ := hl
  have ha : (r.expireAt n).active = r.active := by
    simp [OperationRecord.active, OperationRecord.expireAt, he, Sql.isNull]
  have hcm : (r.expireAt n).completed = r.completed := by
    simp [OperationRecord.completed, OperationRecord.expireAt, he, Sql.isNull]
  have hs : (r.expireAt n).checks key = r.checks key := by
    simp only [OperationRecord.checks, ha, hcm]
    rfl
  show satisfies ((r.expireAt n).checks key) = true
  rw [hs]
  exact hc

theorem UploadRecord.keeps_abandon (now exp : ℤ) :
    Constrained.Keeps (fun key (r : UploadRecord) => satisfies (r.checks key))
      (fun r => decide (r.state = 1)) (UploadRecord.abandon now exp) := by
  intro key r hc _
  simp only [satisfies, UploadRecord.checks, List.all_cons, List.all_nil, Bool.and_true,
    Bool.and_eq_true] at hc ⊢
  obtain ⟨ho, hid, ht, hs, hl, hof, -, hd, hin, hr, hp, hwi, hi, -⟩ := hc
  exact ⟨ho, hid, ht, hs, hl, hof, rfl, hd, hin, hr, hp, hwi, hi, rfl, rfl, rfl⟩

/-- The expiration of an upload is under no constraint. -/
theorem UploadRecord.keeps_expireAt (n : ℤ) :
    Constrained.Keeps (fun key (r : UploadRecord) => satisfies (r.checks key))
      (fun r => decide (n < r.expiresAtMs)) (UploadRecord.expireAt n) :=
  fun _ _ hc _ => hc

theorem PurgeRecord.keeps_release (now : ℤ) :
    Constrained.Keeps (fun key (r : PurgeRecord) => satisfies (r.checks key))
      (fun r => decide (r.state = 2)) (PurgeRecord.release now) := by
  intro key r hc _
  simp only [satisfies, PurgeRecord.checks, List.all_cons, List.all_nil, Bool.and_true,
    Bool.and_eq_true] at hc ⊢
  obtain ⟨ho, hid, htg, ht, hd, hi, hr, hk, -, ha, hp⟩ :=
    hc
  exact ⟨ho, hid, htg, ht, hd, hi, hr, hk, rfl, ha, hp⟩

/-- Neither is the schedule of a job. -/
theorem PurgeRecord.keeps_scheduleAt (now : ℤ) :
    Constrained.Keeps (fun key (r : PurgeRecord) => satisfies (r.checks key))
      (fun r => decide (r.state = 1 ∧ now < r.nextAttemptAtMs)) (PurgeRecord.scheduleAt now) :=
  fun _ _ hc _ => hc

/-! ## The recovered database -/

namespace Database

variable (db : Database) (now operationExpiresAt uploadExpiresAt : ℤ)

/-- What the statements leave. -/
def recovered : Database where
  operations :=
    (((db.operations.delete fun r => r.isExpired now).delete fun r => decide (r.state = 0)).updated
      _ _ (OperationRecord.keeps_complete now operationExpiresAt)).updated
        _ _ (OperationRecord.keeps_expireAt operationExpiresAt)
  uploadSessions :=
    (db.uploadSessions.updated _ _ (UploadRecord.keeps_abandon now uploadExpiresAt)).updated
      _ _ (UploadRecord.keeps_expireAt uploadExpiresAt)
  purgeJobs :=
    (db.purgeJobs.updated _ _ (PurgeRecord.keeps_release now)).updated
      _ _ (PurgeRecord.keeps_scheduleAt now)

/-- No statement is refused. -/
theorem execute_recovery : (recoveryStatements now operationExpiresAt uploadExpiresAt).foldlM
      (fun db stmt => stmt db) db =
        .ok (db.recovered now operationExpiresAt uploadExpiresAt) := by
  simp only [recoveryStatements, List.foldlM_cons, List.foldlM_nil, deleteOperations,
    updateOperations, updateUploadSessions, updatePurgeJobs, bind, Except.bind, pure, Except.pure,
    Constrained.update_eq_some (OperationRecord.keeps_complete now operationExpiresAt),
    Constrained.update_eq_some (OperationRecord.keeps_expireAt operationExpiresAt),
    Constrained.update_eq_some (UploadRecord.keeps_abandon now uploadExpiresAt),
    Constrained.update_eq_some (UploadRecord.keeps_expireAt uploadExpiresAt),
    Constrained.update_eq_some (PurgeRecord.keeps_release now),
    Constrained.update_eq_some (PurgeRecord.keeps_scheduleAt now)]
  rfl

/-- The operation of a key after recovery. -/
theorem get_operation_recovered (key : RowKey) :
    (db.recovered now operationExpiresAt uploadExpiresAt).operations.get key =
      ((db.operations.get key).filter fun r => !r.isExpired now && !decide (r.state = 0)).map
        fun r => r.recover now operationExpiresAt := by
  simp only [recovered, Constrained.get_updated, Constrained.get_delete, Option.filter_filter,
    Option.map_map]
  congr 1
  funext r
  simp [OperationRecord.recover, OperationRecord.expiresAfter, OperationRecord.expireAt]

/-- The upload of a key after recovery. -/
theorem get_upload_recovered (key : RowKey) :
    (db.recovered now operationExpiresAt uploadExpiresAt).uploadSessions.get key =
      (db.uploadSessions.get key).map fun r => r.recover now uploadExpiresAt := by
  simp only [recovered, Constrained.get_updated, Option.map_map]
  congr 1
  funext r
  simp [UploadRecord.recover, UploadRecord.abandon, UploadRecord.expireAt]

/-- The purge job of a key after recovery. -/
theorem get_purge_recovered (key : RowKey) :
    (db.recovered now operationExpiresAt uploadExpiresAt).purgeJobs.get key =
      (db.purgeJobs.get key).map fun r => r.recover now := by
  simp only [recovered, Constrained.get_updated, Option.map_map]
  congr 1
  funext r
  simp [PurgeRecord.recover, PurgeRecord.release, PurgeRecord.scheduleAt]

/-- No operation runs, no upload is being committed and no job is claimed; nothing expires after its
    time to live, and every job that is ready is due. -/
structure Settled : Prop where
  operations : ∀ key r, db.operations.get key = some r → r.state ≠ 0 ∧ r.state ≠ 1 ∧
    r.isExpired now = false ∧ ∀ expiresAt, r.expiresAtMs = some expiresAt →
      expiresAt ≤ operationExpiresAt
  uploads : ∀ key r, db.uploadSessions.get key = some r →
    r.state ≠ StoredUploadState.commitStarted.toDatabase ∧ r.expiresAtMs ≤ uploadExpiresAt
  purges : ∀ key r, db.purgeJobs.get key = some r →
    r.state ≠ StoredPurgeState.claimed.toDatabase ∧
      (r.state = StoredPurgeState.ready.toDatabase → r.nextAttemptAtMs ≤ now)

end Database

/-- The constraint on the state of an operation. -/
theorem OperationRecord.state_cases {key : RowKey} {r : OperationRecord}
    (h : satisfies (r.checks key) = true) : r.state = 0 ∨ r.state = 1 ∨ r.state = 2 := by
  simp only [satisfies, OperationRecord.checks, List.all_cons, Bool.and_eq_true] at h
  obtain ⟨-, -, -, -, hs, -⟩ := h
  simpa using hs

/-- A recovered operation is completed, as uncertain if it had started to commit, and expires in
    time. -/
theorem OperationRecord.recover_cases {key : RowKey} {r : OperationRecord} (now expiresAt : ℤ)
    (hch : satisfies (r.checks key) = true) (hs : r.state ≠ 0) :
    (r.recover now expiresAt).state = 2 ∧
      (∀ e, (r.recover now expiresAt).expiresAtMs = some e → e ≤ expiresAt) ∧
      (r.state = 1 → r.recover now expiresAt = r.complete .uncertain now expiresAt) ∧
      (r.state = 2 → ∃ e, r.recover now expiresAt = { r with expiresAtMs := e }) := by
  obtain hz | ho | ht := OperationRecord.state_cases hch
  · exact absurd hz hs
  · have hcm : r.recover now expiresAt = r.complete .uncertain now expiresAt := by
      simp [OperationRecord.recover, ho, OperationRecord.complete]
    rw [hcm]
    refine ⟨rfl, ?_, fun _ => rfl, fun ht => absurd (ho.symm.trans ht) (by decide)⟩
    rintro e ⟨⟩
    exact le_rfl
  · have hc : r.recover now expiresAt =
        if r.expiresAtMs.any fun exp => decide (expiresAt < exp) then
          { r with expiresAtMs := some expiresAt } else r := by
      simp [OperationRecord.recover, ht]
    rw [hc]
    refine ⟨by split <;> exact ht, fun e he => ?_,
      fun ho => absurd (ht.symm.trans ho) (by decide), fun _ => ?_⟩
    · split at he
      · obtain ⟨⟩ := he
        exact le_rfl
      · rename_i hl
        simp only [he, Option.any_some, decide_eq_true_eq] at hl
        omega
    · split
      · exact ⟨_, rfl⟩
      · exact ⟨r.expiresAtMs, rfl⟩

/-- A recovered upload: only its state, and only from the commit, and its times change. -/
theorem UploadRecord.recover_cases (r : UploadRecord) (now exp : ℤ) :
    (r.recover now exp).expiresAtMs ≤ exp ∧
      (r.state = 1 → (r.recover now exp).state = 4) ∧
      (r.state ≠ 1 → (r.recover now exp).state = r.state) ∧
      ∃ state upd expires, r.recover now exp =
        { r with state := state, updatedAtMs := upd, expiresAtMs := expires } := by
  unfold UploadRecord.recover
  by_cases ho : r.state = 1
  · rw [if_pos ho]
    rw [if_neg (lt_irrefl exp)]
    exact ⟨le_rfl, fun _ => rfl, fun h => absurd ho h, 4, now, exp, rfl⟩
  · rw [if_neg ho]
    dsimp only
    split
    · exact ⟨le_rfl, fun h => absurd h ho, fun _ => rfl, r.state, r.updatedAtMs, _, rfl⟩
    · exact ⟨by omega, fun h => absurd h ho, fun _ => rfl, r.state, r.updatedAtMs, _, rfl⟩

/-- A recovered job: only its state, and only from a claim, and its times change. -/
theorem PurgeRecord.recover_cases (r : PurgeRecord) (now : ℤ) :
    (r.recover now).state ≠ 2 ∧ ((r.recover now).state = 1 → (r.recover now).nextAttemptAtMs ≤ now) ∧
      (r.state ≠ 2 → (r.recover now).state = r.state) ∧
      ∃ state att upd, r.recover now =
        { r with state := state, nextAttemptAtMs := att, updatedAtMs := upd } := by
  unfold PurgeRecord.recover
  by_cases ht : r.state = 2
  · rw [if_pos ht]
    rw [if_neg fun h => lt_irrefl now h.2]
    exact ⟨show (1 : ℤ) ≠ 2 by decide, fun _ => le_rfl, fun h => absurd ht h, 1, now, now, rfl⟩
  rw [if_neg ht]
  dsimp only
  split
  · exact ⟨ht, fun _ => le_rfl, fun _ => rfl, r.state, now, now, rfl⟩
  · exact ⟨ht, fun hr => by omega, fun _ => rfl, r.state, r.nextAttemptAtMs, r.updatedAtMs, rfl⟩

namespace Database

variable {db : Database} {now operationExpiresAt uploadExpiresAt : ℤ}

/-- A second recovery finds nothing to do. -/
theorem Settled.recovered_eq (h : db.Settled now operationExpiresAt uploadExpiresAt) :
    db.recovered now operationExpiresAt uploadExpiresAt = db := by
  have he : (db.operations.delete fun r => r.isExpired now) = db.operations :=
    Constrained.delete_eq_self fun key r hr => (h.operations key r hr).2.2.1
  have hrs : (db.operations.delete fun r => decide (r.state = 0)) = db.operations :=
    Constrained.delete_eq_self fun key r hr => decide_eq_false (h.operations key r hr).1
  have hcm := Constrained.updated_eq_self (t := db.operations)
    (OperationRecord.keeps_complete now operationExpiresAt)
    fun key r hr => decide_eq_false (h.operations key r hr).2.1
  have hl := Constrained.updated_eq_self (t := db.operations)
    (OperationRecord.keeps_expireAt operationExpiresAt) fun key r hr => by
      have hlm := (h.operations key r hr).2.2.2
      cases hex : r.expiresAtMs with
      | none => simp [OperationRecord.expiresAfter, hex]
      | some exp => simp [OperationRecord.expiresAfter, hex, hlm exp hex]
  have hc := Constrained.updated_eq_self (t := db.uploadSessions)
    (UploadRecord.keeps_abandon now uploadExpiresAt)
    fun key r hr => decide_eq_false (h.uploads key r hr).1
  have hk := Constrained.updated_eq_self (t := db.uploadSessions)
    (UploadRecord.keeps_expireAt uploadExpiresAt)
    fun key r hr => decide_eq_false (not_lt.mpr (h.uploads key r hr).2)
  have hcl := Constrained.updated_eq_self (t := db.purgeJobs)
    (PurgeRecord.keeps_release now) fun key r hr => decide_eq_false (h.purges key r hr).1
  have hrd := Constrained.updated_eq_self (t := db.purgeJobs)
    (PurgeRecord.keeps_scheduleAt now) fun key r hr => decide_eq_false fun hl =>
      not_lt.mpr ((h.purges key r hr).2 hl.1) hl.2
  cases db
  simp only [recovered, mk.injEq]
  refine ⟨?_, ?_, ?_⟩
  · rw [he, hrs, hcm, hl]
  · rw [hc, hk]
  · rw [hcl, hrd]

/-- Recovery settles the database: what it completes expires after `now`. -/
theorem settled_recovered (db : Database) (hlt : now < operationExpiresAt) :
    (db.recovered now operationExpiresAt uploadExpiresAt).Settled now operationExpiresAt
      uploadExpiresAt := by
  refine ⟨fun key r hr => ?_, fun key r hr => ?_, fun key r hr => ?_⟩
  · rw [get_operation_recovered, Option.map_eq_some_iff] at hr
    obtain ⟨old, hold, rfl⟩ := hr
    rw [Option.filter_eq_some_iff] at hold
    obtain ⟨hold, hkp⟩ := hold
    simp only [Bool.and_eq_true, Bool.not_eq_true', decide_eq_false_iff_not] at hkp
    obtain ⟨hu, hs⟩ := hkp
    have hc := db.operations.passes key old hold
    obtain ⟨hco, hl, hcm, hk⟩ :=
      OperationRecord.recover_cases now operationExpiresAt hc hs
    refine ⟨by rw [hco]; decide, by rw [hco]; decide, ?_, hl⟩
    obtain hz | ho | ht := OperationRecord.state_cases hc
    · exact absurd hz hs
    · rw [hcm ho]
      simp [OperationRecord.isExpired, OperationRecord.complete, hlt]
    -- A completed operation that had not expired is kept, or expires later than now.
    cases he : old.expiresAtMs with
    | none => simp [OperationRecord.isExpired, OperationRecord.recover, ht, he]
    | some exp =>
      simp only [OperationRecord.isExpired, ht, he, decide_true, Bool.true_and,
        Option.any_some, decide_eq_false_iff_not] at hu
      by_cases hla : operationExpiresAt < exp
      · simp [OperationRecord.isExpired, OperationRecord.recover, ht, he, hla, hlt]
      · simp [OperationRecord.isExpired, OperationRecord.recover, ht, he, hla]
        omega
  · rw [get_upload_recovered, Option.map_eq_some_iff] at hr
    obtain ⟨old, -, rfl⟩ := hr
    obtain ⟨hl, hcm, hk, -⟩ := old.recover_cases now uploadExpiresAt
    refine ⟨?_, hl⟩
    by_cases ho : old.state = 1
    · rw [hcm ho]
      decide
    · rw [hk ho]
      exact ho
  · rw [get_purge_recovered, Option.map_eq_some_iff] at hr
    obtain ⟨old, -, rfl⟩ := hr
    obtain ⟨hcl, hrd, -⟩ := old.recover_cases now
    exact ⟨hcl, hrd⟩

/-- What recovery keeps. Outcomes, bindings, offsets, identities and revisions stay; a commit that
    had started has become unknown; rows that were reserved or expired are gone. -/
structure Keeps (before after : Database) (now operationExpiresAt : ℤ) : Prop where
  completed : ∀ key r, before.operations.get key = some r → r.state = 2 →
    r.isExpired now = false → ∃ expires, after.operations.get key =
      some { r with expiresAtMs := expires }
  committing : ∀ key r, before.operations.get key = some r → r.state = 1 →
    after.operations.get key = some (r.complete .uncertain now operationExpiresAt)
  uploads : ∀ key r, before.uploadSessions.get key = some r →
    ∃ state updatedAt expires, after.uploadSessions.get key =
        some { r with state := state, updatedAtMs := updatedAt, expiresAtMs := expires } ∧
      (r.state = StoredUploadState.commitStarted.toDatabase →
        state = StoredUploadState.unknown.toDatabase) ∧
      (r.state ≠ StoredUploadState.commitStarted.toDatabase → state = r.state)
  purges : ∀ key r, before.purgeJobs.get key = some r →
    ∃ state nextAttempt updatedAt, after.purgeJobs.get key =
        some { r with state := state, nextAttemptAtMs := nextAttempt, updatedAtMs := updatedAt } ∧
      (r.state ≠ StoredPurgeState.claimed.toDatabase → state = r.state)
  noOperation : ∀ key, before.operations.get key = none → after.operations.get key = none
  noUpload : ∀ key, before.uploadSessions.get key = none → after.uploadSessions.get key = none
  noPurge : ∀ key, before.purgeJobs.get key = none → after.purgeJobs.get key = none

theorem keeps_recovered (db : Database) :
    Keeps db (db.recovered now operationExpiresAt uploadExpiresAt) now operationExpiresAt := by
  refine ⟨fun key r hr ht hu => ?_, fun key r hr ho => ?_, fun key r hr => ?_,
    fun key r hr => ?_, fun key hr => ?_, fun key hr => ?_, fun key hr => ?_⟩
  · obtain ⟨-, -, -, hk⟩ := OperationRecord.recover_cases now operationExpiresAt
      (db.operations.passes key r hr) (by rw [ht]; decide)
    obtain ⟨exp, he⟩ := hk ht
    refine ⟨exp, ?_⟩
    rw [get_operation_recovered, hr, ← he]
    simp [Option.filter, hu, ht]
  · obtain ⟨-, -, hc, -⟩ := OperationRecord.recover_cases now operationExpiresAt
      (db.operations.passes key r hr) (by rw [ho]; decide)
    rw [get_operation_recovered, hr, ← hc ho]
    simp [Option.filter, OperationRecord.isExpired, ho]
  · obtain ⟨-, hc, hk, st, upd, exp, heq⟩ :=
      r.recover_cases now uploadExpiresAt
    rw [heq] at hc hk
    exact ⟨st, upd, exp, by rw [get_upload_recovered, hr, ← heq]; rfl, hc, hk⟩
  · obtain ⟨-, -, hk, st, att, upd, heq⟩ := r.recover_cases now
    rw [heq] at hk
    exact ⟨st, att, upd, by rw [get_purge_recovered, hr, ← heq]; rfl, hk⟩
  · rw [get_operation_recovered, hr]
    rfl
  · rw [get_upload_recovered, hr]
    rfl
  · rw [get_purge_recovered, hr]
    rfl

end Database

/-! ## Atomicity and idempotence -/

theorem expirationTime_eq_ok {now ttlMs exp : ℤ} (h : expirationTime now ttlMs = .ok exp) :
    exp = now + ttlMs := by
  unfold expirationTime at h
  split at h
  · exact (Except.ok.inj h).symm
  · cases h

/-- A recovery fails and changes nothing, or it does what it does without a fault. -/
theorem recoverDatabase_cases (ttl uttl now : ℤ) (fs : ℕ → Option RecoveryError) (db : Database) :
    (∃ e, recoverDatabase ttl uttl now fs db = (.error e, db)) ∨
      expirationTime now ttl = .ok (now + ttl) ∧
        expirationTime now uttl = .ok (now + uttl) ∧
        recoverDatabase ttl uttl now fs db =
          (.ok (), db.recovered now (now + ttl) (now + uttl)) := by
  unfold recoverDatabase
  cases hop : expirationTime now ttl with
  | error msg => exact .inl ⟨_, rfl⟩
  | ok operationExpiresAt =>
    cases hu : expirationTime now uttl with
    | error msg => exact .inl ⟨_, rfl⟩
    | ok uploadExpiresAt =>
      dsimp only
      obtain ⟨e, he⟩ | ⟨⟨db', hdb'⟩, -⟩ := transaction_all_or_nothing fs
        (recoveryStatements now operationExpiresAt uploadExpiresAt) db
      · exact .inl ⟨e, he⟩
      have hex := (transaction_eq_ok_iff.mp hdb').2
      rw [db.execute_recovery] at hex
      obtain rfl := expirationTime_eq_ok hop
      obtain rfl := expirationTime_eq_ok hu
      exact .inr ⟨rfl, rfl, by rw [hdb', Except.ok.inj hex]⟩

/-- Without a fault a recovery succeeds when both expirations can be represented. -/
theorem recoverDatabase_noFaults {ttl uttl now : ℤ} (db : Database)
    (hop : expirationTime now ttl = .ok (now + ttl))
    (hu : expirationTime now uttl = .ok (now + uttl)) :
    recoverDatabase ttl uttl now noFaults db =
      (.ok (), db.recovered now (now + ttl) (now + uttl)) := by
  simp only [recoverDatabase, hop, hu]
  exact transaction_eq_ok_iff.mpr ⟨fun _ _ => rfl, db.execute_recovery _ _ _⟩

/-- The columns hold the rows of the typed tables. -/
structure Database.Holds (db : Database) (ops : Operations)
    (uploads : UploadSessions (List Component)) (jobs : PurgeJobs (List Component)) : Prop where
  operations : ∀ key : OperationKey,
    Option.Rel OperationRecord.Holds (db.operations.get key.row) (ops.get key)
  uploads : ∀ key : UploadSessionKey,
    Option.Rel (UploadRecord.Holds key) (db.uploadSessions.get key.row) (uploads.get key)
  purges : ∀ key : PurgeJobKey,
    Option.Rel (PurgeRecord.Holds key) (db.purgeJobs.get key.row) (jobs.get key)

theorem rel_map {α β α' β' : Type} {R : α → β → Prop} {R' : α' → β' → Prop} {f : α → α'}
    {g : β → β'} {a : Option α} {b : Option β} (h : Option.Rel R a b)
    (hk : ∀ {x y}, R x y → R' (f x) (g y)) : Option.Rel R' (a.map f) (b.map g) := by
  cases h with
  | none => exact .none
  | some h => exact .some (hk h)

/-- Recovery of the columns is recovery of the typed tables, table by table. -/
theorem recoverDatabase_refines {limits : Limits} {uploadLimits : UploadLimits} {now : ℤ}
    {db : Database} {ops ops' : Operations} {uploads uploads' : UploadSessions (List Component)}
    {jobs : PurgeJobs (List Component)} (h : db.Holds ops uploads jobs)
    (ho : recoverOperations limits now ops = .ok ops')
    (hu : recoverUploadSessions uploadLimits now uploads = .ok uploads') :
    ∃ db', recoverDatabase limits.ttlMs uploadLimits.uploadTtlMs now noFaults db = (.ok (), db') ∧
      db'.Holds ops' uploads' (recoverPurgeJobs now jobs) := by
  obtain ⟨exp, he, hops⟩ := recoverOperations_get ho
  obtain ⟨uploadExp, hue, hups⟩ := recoverUploadSessions_get hu
  obtain rfl := expirationTime_eq_ok he
  obtain rfl := expirationTime_eq_ok hue
  refine ⟨_, recoverDatabase_noFaults db he hue, fun key => ?_, fun key => ?_, fun key => ?_⟩
  · rw [db.get_operation_recovered, hops]
    have hk := h.operations key
    generalize db.operations.get key.row = row, ops.get key = entry at hk ⊢
    cases hk with
    | none => exact .none
    | @some r typed hk =>
      have hr := hk.recover now (now + limits.ttlMs)
      split_ifs at hr with hd
      · rw [Option.filter_some_neg (by obtain hd | hd := hd <;> simp [hd])]
        exact hr
      · rw [Option.filter_some_pos (by simpa using hd)]
        exact hr
  · rw [db.get_upload_recovered, hups]
    exact rel_map (h.uploads key) fun hk => hk.recover now _
  · rw [db.get_purge_recovered, recoverPurgeJobs_get]
    exact rel_map (h.purges key) fun hk => hk.recover now

/-- Recovery is atomic and idempotent: it changes nothing or everything, a second one at the same
    time changes nothing, and what it leaves is settled and keeps what has to be kept. -/
theorem recoverDatabase_settles (operationTtlMs uploadTtlMs now : ℤ) (hpositive : 0 < operationTtlMs)
    (faults : ℕ → Option RecoveryError) (db after : Database) (answer : Except RecoveryError Unit)
    (hrun : recoverDatabase operationTtlMs uploadTtlMs now faults db = (answer, after)) :
    (answer = .ok () ∨ after = db) ∧
      (answer = .ok () → (answer, after) =
        recoverDatabase operationTtlMs uploadTtlMs now noFaults db) ∧
      (expirationTime now operationTtlMs = .ok (now + operationTtlMs) →
        expirationTime now uploadTtlMs = .ok (now + uploadTtlMs) → faults = noFaults →
          answer = .ok ()) ∧
      (answer = .ok () →
        recoverDatabase operationTtlMs uploadTtlMs now noFaults after = (.ok (), after) ∧
          (∀ faults', (recoverDatabase operationTtlMs uploadTtlMs now faults' after).2 = after) ∧
          after.Settled now (now + operationTtlMs) (now + uploadTtlMs) ∧
          Database.Keeps db after now (now + operationTtlMs)) := by
  obtain ⟨e, he⟩ | ⟨ho, hu, hok⟩ :=
    recoverDatabase_cases operationTtlMs uploadTtlMs now faults db
  · obtain ⟨rfl, rfl⟩ := Prod.mk.inj (hrun.symm.trans he)
    refine ⟨.inr rfl, nofun, fun ho hu hf => ?_, nofun⟩
    rw [hf, recoverDatabase_noFaults after ho hu] at hrun
    exact (Prod.mk.inj hrun).1.symm
  · obtain ⟨rfl, rfl⟩ := Prod.mk.inj (hrun.symm.trans hok)
    have hs : (db.recovered now (now + operationTtlMs) (now + uploadTtlMs)).Settled now
        (now + operationTtlMs) (now + uploadTtlMs) := db.settled_recovered (by omega)
    refine ⟨.inl rfl, fun _ => (recoverDatabase_noFaults db ho hu).symm,
      fun _ _ _ => rfl, fun _ => ⟨?_, fun faults' => ?_, hs, db.keeps_recovered⟩⟩
    · rw [recoverDatabase_noFaults _ ho hu, hs.recovered_eq]
    obtain ⟨e, he⟩ | ⟨-, -, ha⟩ := recoverDatabase_cases operationTtlMs uploadTtlMs now faults'
      (db.recovered now (now + operationTtlMs) (now + uploadTtlMs))
    · rw [he]
    · rw [ha, hs.recovered_eq]

/-- An upload that was being committed when the server stopped. -/
def interruptedUpload : UploadRecord where
  targetPath := [97]
  stagePath := [98]
  uploadLength := 1
  durableOffset := 1
  state := 1
  stageDeviceBe := none
  stageInodeBe := none
  targetRevision := none
  updatedAtMs := 0
  expiresAtMs := 500

/-- A database with this upload. -/
def interruptedDatabase : Database where
  operations := ⟨.empty, nofun⟩
  uploadSessions := ⟨Table.empty.put ⟨List.replicate 32 0, List.replicate 16 0⟩ interruptedUpload, by
    intro key r hr
    obtain ⟨rfl, rfl⟩ | ⟨-, hr⟩ := Table.get_put_cases hr
    · decide
    · exact nomatch hr⟩
  purgeJobs := ⟨.empty, nofun⟩

theorem recoverDatabase_settles_interrupted :
    (recoverDatabase 10 10 100 noFaults interruptedDatabase).1 = .ok () ∧
      (recoverDatabase 10 10 100 noFaults interruptedDatabase).2.Settled 100 110 110 := by
  obtain ⟨-, -, hok, hs⟩ := recoverDatabase_settles 10 10 100 (by decide) noFaults
    interruptedDatabase _ _ Prod.mk.eta.symm
  have ha := hok rfl rfl rfl
  exact ⟨ha, (hs ha).2.2.1⟩

end DufsRam.StateStore
