import DufsRam.Lib.BigEndian
import DufsRam.Lib.Sql
import DufsRam.StateStore.Upload
import DufsRam.StateStore.Purge

/-!
# Rows of the state database

The values of the store (`state_store/model.rs`), the columns in which it keeps them, the `CHECK`
constraints of `schema/product.sql` and the functions that read a row back. The validity of a value
is written three times, by the validators, by the constraints and by the decoders.

A path is its bytes. Two paths are equal for Rust if they have the same components, and for SQLite if
they have the same bytes.

Results:
* `UploadRecord.satisfies_ofValue`, `decodeUploadRow_ofValue`: the row of a valid session.
* `PurgeRecord.satisfies_ofValue`, `decodePurgeRow_ofValue`: the row of a purge job.
-/

namespace DufsRam.StateStore

/-- The bytes of a column. -/
abbrev Blob := List UInt8

/-! ## Paths -/

/-- `PathBuf`. -/
structure PathBuf where
  bytes : Blob
deriving DecidableEq

/-- `std::path::Component` on Unix. -/
inductive Component where
  | rootDir
  | curDir
  | parentDir
  | normal (name : Blob)
deriving DecidableEq

/-- The component that a part between two slashes stands for; empty parts and dots are skipped. -/
def Component.ofPart (part : Blob) : Option Component :=
  if part = [] ∨ part = [46] then none
  else if part = [46, 46] then some .parentDir
  else some (.normal part)

/-- `Path::components`: 47 is the slash and 46 the dot. A dot counts at the start of a relative path
    only. -/
def PathBuf.components (path : PathBuf) : List Component :=
  let parts := path.bytes.splitOn 47
  let start : List Component :=
    if path.bytes.head? = some 47 then [.rootDir]
    else if parts.head? = some [46] then [.curDir]
    else []
  start ++ parts.filterMap Component.ofPart

/-- `validate_stored_path` (`model.rs`, lines 323-335). -/
def validateStoredPath (path : PathBuf) (description : String) : Except String Unit := do
  ensure (path.bytes ≠ []) (description ++ " path cannot be empty")
  ensure (path.bytes.length ≤ 65536) (description ++ " path is too long for the state database")
  ensure (0 ∉ path.bytes) (description ++ " path contains a NUL byte")

/-- A path that the validator accepts. -/
structure PathBuf.Stored (path : PathBuf) : Prop where
  nonempty : path.bytes ≠ []
  short : path.bytes.length ≤ 65536
  noNul : 0 ∉ path.bytes

theorem ensure_eq_ok {p : Prop} [Decidable p] {msg : String} : ensure p msg = .ok () ↔ p := by
  unfold ensure
  split_ifs with hp
  · exact ⟨fun _ => hp, fun _ => rfl⟩
  · exact ⟨fun h => (nomatch h), fun h => absurd h hp⟩

theorem unit_bind_eq_ok {α : Type} {check : Except String Unit} {next : Except String α} {a : α} :
    (check >>= fun _ => next) = .ok a ↔ check = .ok () ∧ next = .ok a := by
  cases check with
  | error msg => exact ⟨fun h => (nomatch h), fun h => (nomatch h.1)⟩
  | ok => exact ⟨fun h => ⟨rfl, h⟩, fun h => h.2⟩

theorem validateStoredPath_eq_ok {path : PathBuf} {description : String} :
    validateStoredPath path description = .ok () ↔ path.Stored := by
  rw [validateStoredPath, ensure_bind_eq_ok, ensure_bind_eq_ok, ensure_eq_ok]
  exact ⟨fun ⟨hne, hs, hn⟩ => ⟨hne, hs, hn⟩, fun h => ⟨h.nonempty, h.short, h.noNul⟩⟩

/-! ## Values -/

/-- `StoredFileIdentity` (`model.rs`, lines 128-132). -/
structure StoredFileIdentity where
  device : BitVec 64
  inode : BitVec 64
deriving DecidableEq

/-- `StoredUploadSession` (`model.rs`, lines 163-173) with the bytes of its paths. -/
structure UploadValue where
  key : UploadSessionKey
  targetPath : PathBuf
  stagePath : PathBuf
  uploadLength : BitVec 64
  durableOffset : BitVec 64
  state : StoredUploadState
  stageIdentity : Option StoredFileIdentity
  targetRevision : Option Digest
deriving DecidableEq

/-- What Rust compares of a file identity. -/
def StoredFileIdentity.identity (stored : StoredFileIdentity) : FileIdentity :=
  ⟨stored.device.toNat, stored.inode.toNat⟩

/-- What Rust compares of a session. -/
def UploadValue.session (v : UploadValue) : StoredUploadSession (List Component) where
  targetPath := v.targetPath.components
  stagePath := v.stagePath.components
  uploadLength := v.uploadLength.toNat
  durableOffset := v.durableOffset.toNat
  state := v.state
  stageIdentity := v.stageIdentity.map StoredFileIdentity.identity
  targetRevision := v.targetRevision

/-- `StoredUploadSession::validate` (`model.rs`, lines 190-221) with the checks of the paths. -/
def UploadValue.validate (v : UploadValue) : Except String Unit := do
  validateStoredPath v.targetPath "Upload target"
  validateStoredPath v.stagePath "Upload stage"
  v.session.validate

/-- `StoredPurgeJob` (`model.rs`, lines 258-268). -/
structure PurgeValue where
  key : PurgeJobKey
  targetPath : PathBuf
  trashPath : PathBuf
  sourceIdentity : StoredFileIdentity
  trashRevision : Option Digest
  isDirectory : Bool
  state : StoredPurgeState
  attempts : BitVec 32
deriving DecidableEq

/-- The checks of the paths, which `validate_new` (`model.rs`, lines 272-277) and `decode_purge_row`
    (`purge.rs`, lines 495-500) make. -/
def PurgeValue.validatePaths (v : PurgeValue) : Except String Unit := do
  validateStoredPath v.targetPath "Purge target"
  validateStoredPath v.trashPath "Purge trash"
  ensure (v.targetPath.components ≠ v.trashPath.components)
    "Purge target and trash paths must differ"

/-- `StoredPurgeJob::validate_new` (`model.rs`, lines 271-288). -/
def PurgeValue.validateNew (v : PurgeValue) : Except String Unit := do
  v.validatePaths
  ensure (v.state = .prepared) "A new purge job must start in the prepared state"
  ensure (v.trashRevision = none) "A new purge job cannot have a trash revision"
  ensure (v.attempts = 0) "A new purge job cannot have attempts"

/-- A session that the validator accepts. -/
structure UploadValue.Valid (v : UploadValue) : Prop where
  targetPath : v.targetPath.Stored
  stagePath : v.stagePath.Stored
  differ : v.targetPath.components ≠ v.stagePath.components
  offset : v.durableOffset.toNat ≤ v.uploadLength.toNat
  length : v.uploadLength.toNat < 2 ^ 63
  complete : v.state = .commitStarted ∨ v.state = .committed ∨ v.state = .awaitingConfirmation →
    v.durableOffset.toNat = v.uploadLength.toNat

/-- A purge job that the decoder accepts. -/
structure PurgeValue.Valid (v : PurgeValue) : Prop where
  targetPath : v.targetPath.Stored
  trashPath : v.trashPath.Stored
  differ : v.targetPath.components ≠ v.trashPath.components

theorem StoredUploadSession.validate_eq_ok_iff {π : Type} [DecidableEq π]
    {sess : StoredUploadSession π} :
    sess.validate = .ok () ↔ sess.targetPath ≠ sess.stagePath ∧
      sess.durableOffset ≤ sess.uploadLength ∧ sess.uploadLength < 2 ^ 63 ∧
      (sess.state = .commitStarted ∨ sess.state = .committed ∨
        sess.state = .awaitingConfirmation → sess.durableOffset = sess.uploadLength) := by
  rw [StoredUploadSession.validate, ensure_bind_eq_ok, ensure_bind_eq_ok, ensure_bind_eq_ok]
  refine and_congr_right fun _ => and_congr_right fun _ => and_congr_right fun _ => ?_
  split
  all_goals rename_i hs
  all_goals simp [hs, ensure_eq_ok]

theorem UploadValue.validate_eq_ok_iff {v : UploadValue} : v.validate = .ok () ↔ v.Valid := by
  rw [UploadValue.validate, unit_bind_eq_ok, unit_bind_eq_ok, validateStoredPath_eq_ok,
    validateStoredPath_eq_ok, StoredUploadSession.validate_eq_ok_iff]
  exact ⟨fun ⟨ht, hs, hd, ho, hl, hc⟩ =>
      ⟨ht, hs, hd, ho, hl, hc⟩,
    fun h => ⟨h.targetPath, h.stagePath, h.differ, h.offset, h.length, h.complete⟩⟩

theorem PurgeValue.validatePaths_eq_ok_iff {v : PurgeValue} : v.validatePaths = .ok () ↔ v.Valid := by
  rw [PurgeValue.validatePaths, unit_bind_eq_ok, unit_bind_eq_ok, validateStoredPath_eq_ok,
    validateStoredPath_eq_ok, ensure_eq_ok]
  exact ⟨fun ⟨htg, ht, hd⟩ => ⟨htg, ht, hd⟩, fun h => ⟨h.targetPath, h.trashPath, h.differ⟩⟩

theorem PurgeValue.validateNew_eq_ok_iff {v : PurgeValue} : v.validateNew = .ok () ↔
      v.Valid ∧ v.state = .prepared ∧ v.trashRevision = none ∧ v.attempts = 0 := by
  rw [PurgeValue.validateNew, unit_bind_eq_ok, validatePaths_eq_ok_iff, ensure_bind_eq_ok,
    ensure_bind_eq_ok, ensure_eq_ok]

/-! ## Columns -/

/-- The columns of the primary keys: an owner digest and an id. -/
structure RowKey where
  ownerDigest : Blob
  id : Blob
deriving DecidableEq

/-- The columns of a key. -/
def RowKey.of (owner : Digest) (id : Uuid) : RowKey :=
  ⟨BigEndian.encode 32 owner, BigEndian.encode 16 id⟩

/-- The other columns of `upload_sessions`. -/
structure UploadRecord where
  targetPath : Blob
  stagePath : Blob
  uploadLength : ℤ
  durableOffset : ℤ
  state : ℤ
  stageDeviceBe : Option Blob
  stageInodeBe : Option Blob
  targetRevision : Option Blob
  updatedAtMs : ℤ
  expiresAtMs : ℤ
deriving DecidableEq

/-- The other columns of `purge_jobs`. -/
structure PurgeRecord where
  targetPath : Blob
  trashPath : Blob
  sourceDeviceBe : Blob
  sourceInodeBe : Blob
  trashRevision : Option Blob
  isDirectory : ℤ
  state : ℤ
  attempts : ℤ
  nextAttemptAtMs : ℤ
  createdAtMs : ℤ
  updatedAtMs : ℤ
deriving DecidableEq

/-- The other columns of `operations`. -/
structure OperationRecord where
  fingerprint : Blob
  leaseToken : Blob
  state : ℤ
  terminalState : Option ℤ
  httpStatus : Option ℤ
  errorCode : Option String
  createdAtMs : ℤ
  updatedAtMs : ℤ
  expiresAtMs : Option ℤ
deriving DecidableEq

/-! ## Constraints -/

/-- The constraint that a blob has a given length. -/
def hasLength (bytes : Blob) (n : ℤ) : Sql.Truth := Sql.equal (Sql.blobLength (some bytes)) (some n)

/-- The constraint that a blob is NULL or has a given length. -/
def nullOrLength (bytes : Option Blob) (n : ℤ) : Sql.Truth :=
  (Sql.isNull bytes).or (Sql.equal (Sql.blobLength bytes) (some n))

/-- The constraint on the length of a path. -/
def pathLength (bytes : Blob) : Sql.Truth := Sql.between (Sql.blobLength (some bytes)) 1 65536

/-- The constraints of `upload_sessions` (`schema/product.sql`, lines 56-74). -/
def UploadRecord.checks (key : RowKey) (r : UploadRecord) : List Sql.Truth :=
  let complete (state : ℤ) : Sql.Truth :=
    (Sql.equal (some r.state) (some state)).not.or
      (Sql.equal (some r.durableOffset) (some r.uploadLength))
  [hasLength key.ownerDigest 32, hasLength key.id 16, pathLength r.targetPath,
    pathLength r.stagePath, some (decide (0 ≤ r.uploadLength)), some (decide (0 ≤ r.durableOffset)),
    Sql.oneOf (some r.state) [0, 1, 2, 3, 4, 5], nullOrLength r.stageDeviceBe 8,
    nullOrLength r.stageInodeBe 8, nullOrLength r.targetRevision 32,
    some (decide (r.targetPath ≠ r.stagePath)), some (decide (r.durableOffset ≤ r.uploadLength)),
    some (r.stageDeviceBe.isNone == r.stageInodeBe.isNone), complete 2, complete 1, complete 5]

/-- The constraints of `purge_jobs` (lines 81-95). -/
def PurgeRecord.checks (key : RowKey) (r : PurgeRecord) : List Sql.Truth :=
  [hasLength key.ownerDigest 32, hasLength key.id 16, pathLength r.targetPath,
    pathLength r.trashPath, hasLength r.sourceDeviceBe 8, hasLength r.sourceInodeBe 8,
    nullOrLength r.trashRevision 32, Sql.oneOf (some r.isDirectory) [0, 1],
    Sql.oneOf (some r.state) [0, 1, 2], Sql.between (some r.attempts) 0 4294967295,
    some (decide (r.targetPath ≠ r.trashPath))]

/-- An operation that is not completed (lines 30-34). -/
def OperationRecord.active (r : OperationRecord) : Sql.Truth :=
  ((((Sql.oneOf (some r.state) [0, 1]).and (Sql.isNull r.terminalState)).and
    (Sql.isNull r.httpStatus)).and (Sql.isNull r.errorCode)).and (Sql.isNull r.expiresAtMs)

/-- A completed operation with its outcome (lines 36-48). -/
def OperationRecord.completed (r : OperationRecord) : Sql.Truth :=
  let success := Sql.between r.httpStatus 200 299
  let succeeded :=
    ((Sql.equal r.terminalState (some 0)).and success).and (Sql.isNull r.errorCode)
  let failed :=
    ((Sql.oneOf r.terminalState [1, 2]).and success.not).and (Sql.isNull r.errorCode).not
  ((((Sql.equal (some r.state) (some 2)).and (Sql.isNull r.terminalState).not).and
    (Sql.between r.httpStatus 100 599)).and (Sql.isNull r.expiresAtMs).not).and
      (succeeded.or failed)

/-- The constraints of `operations` (lines 16-49). -/
def OperationRecord.checks (key : RowKey) (r : OperationRecord) : List Sql.Truth :=
  [hasLength key.ownerDigest 32, hasLength key.id 16, hasLength r.fingerprint 32,
    hasLength r.leaseToken 16, Sql.oneOf (some r.state) [0, 1, 2],
    Sql.oneOf r.terminalState [0, 1, 2],
    (Sql.isNull r.errorCode).or (Sql.between (Sql.textLength r.errorCode) 1 128),
    r.active.or r.completed]

/-- The row passes every constraint. -/
def satisfies (checks : List Sql.Truth) : Bool := checks.all Sql.Truth.passes

/-! ## Encoding and decoding -/

/-- `StoredUploadState as i64` (`state_store.rs`, lines 62-67). -/
def StoredUploadState.toDatabase : StoredUploadState → ℤ
  | .running => 0
  | .commitStarted => 1
  | .committed => 2
  | .rejected => 3
  | .unknown => 4
  | .awaitingConfirmation => 5

/-- `StoredUploadState::from_database` (`model.rs`, lines 146-156). -/
def StoredUploadState.fromDatabase (value : ℤ) : Except String StoredUploadState :=
  if value = 0 then .ok .running
  else if value = 1 then .ok .commitStarted
  else if value = 2 then .ok .committed
  else if value = 3 then .ok .rejected
  else if value = 4 then .ok .unknown
  else if value = 5 then .ok .awaitingConfirmation
  else .error ("Invalid upload session state in the state database: " ++ toString value)

/-- `StoredPurgeState as i64` (`state_store.rs`, lines 69-71). -/
def StoredPurgeState.toDatabase : StoredPurgeState → ℤ
  | .prepared => 0
  | .ready => 1
  | .claimed => 2

/-- `StoredPurgeState::from_database` (`model.rs`, lines 248-255). -/
def StoredPurgeState.fromDatabase (value : ℤ) : Except String StoredPurgeState :=
  if value = 0 then .ok .prepared
  else if value = 1 then .ok .ready
  else if value = 2 then .ok .claimed
  else .error ("Invalid purge job state in the state database: " ++ toString value)

/-- `StoredTerminalState as i64` (`model.rs`, lines 34-38). -/
def StoredTerminalState.toDatabase : StoredTerminalState → ℤ
  | .succeeded => 0
  | .failed => 1
  | .unknown => 2

/-- `StoredTerminalState::from_database` (`model.rs`, lines 41-48). -/
def StoredTerminalState.fromDatabase (value : ℤ) : Except String StoredTerminalState :=
  if value = 0 then .ok .succeeded
  else if value = 1 then .ok .failed
  else if value = 2 then .ok .unknown
  else .error ("Invalid terminal operation state in the state database: " ++ toString value)

/-- `Vec<u8>::try_into` an array of `n` bytes, read as big-endian bytes. -/
def tryInto (n : ℕ) (bytes : Blob) (message : String) : Except String (BitVec (8 * n)) :=
  match BigEndian.decode n bytes with
  | some v => .ok v
  | none => .error message

/-- `tryInto` of a column that may be NULL. -/
def tryIntoOption (n : ℕ) (bytes : Option Blob) (message : String) :
    Except String (Option (BitVec (8 * n))) :=
  match bytes with
  | none => .ok none
  | some bytes => (tryInto n bytes message).map some

/-- `u64::try_from` of an `i64`, and `u32::try_from`. -/
def unsigned (w : ℕ) (value : ℤ) (message : String) : Except String (BitVec w) :=
  if 0 ≤ value ∧ value < 2 ^ w then .ok (BitVec.ofNat w value.toNat) else .error message

/-- What the upsert of a session binds (`upload.rs`, lines 131-164). -/
def UploadRecord.ofValue (v : UploadValue) (updatedAt expiresAt : ℤ) : UploadRecord where
  targetPath := v.targetPath.bytes
  stagePath := v.stagePath.bytes
  uploadLength := v.uploadLength.toNat
  durableOffset := v.durableOffset.toNat
  state := v.state.toDatabase
  stageDeviceBe := v.stageIdentity.map fun identity => BigEndian.encode 8 identity.device
  stageInodeBe := v.stageIdentity.map fun identity => BigEndian.encode 8 identity.inode
  targetRevision := v.targetRevision.map fun revision => BigEndian.encode 32 revision
  updatedAtMs := updatedAt
  expiresAtMs := expiresAt

/-- The identity of the stage (`upload.rs`, lines 449-464). -/
def decodeStageIdentity (device inode : Option Blob) : Except String (Option StoredFileIdentity) :=
  match device, inode with
  | none, none => .ok none
  | some device, some inode => do
    let device ← tryInto 8 device "Upload stage device has an invalid length"
    let inode ← tryInto 8 inode "Upload stage inode has an invalid length"
    return some ⟨device, inode⟩
  | _, _ => .error "Upload stage identity is incomplete"

/-- `decode_upload_row` (`upload.rs`, lines 448-495). -/
def decodeUploadRow (key : RowKey) (row : UploadRecord) : Except String UploadValue := do
  let stageIdentity ← decodeStageIdentity row.stageDeviceBe row.stageInodeBe
  let owner ← tryInto 32 key.ownerDigest "Upload owner digest has an invalid length"
  let id ← tryInto 16 key.id "Upload id has an invalid length"
  let uploadLength ← unsigned 64 row.uploadLength "Upload length in the state database is negative"
  let durableOffset ←
    unsigned 64 row.durableOffset "Upload offset in the state database is negative"
  let state ← StoredUploadState.fromDatabase row.state
  let targetRevision ←
    tryIntoOption 32 row.targetRevision "Upload target revision has an invalid length"
  let session : UploadValue := ⟨⟨owner, id⟩, ⟨row.targetPath⟩, ⟨row.stagePath⟩, uploadLength,
    durableOffset, state, stageIdentity, targetRevision⟩
  session.validate
  return session

/-- The row of a job. `prepare_purge_job` binds it for a new one (`purge.rs`, lines 50-65). -/
def PurgeRecord.ofValue (v : PurgeValue) (nextAttemptAt createdAt updatedAt : ℤ) : PurgeRecord where
  targetPath := v.targetPath.bytes
  trashPath := v.trashPath.bytes
  sourceDeviceBe := BigEndian.encode 8 v.sourceIdentity.device
  sourceInodeBe := BigEndian.encode 8 v.sourceIdentity.inode
  trashRevision := v.trashRevision.map fun revision => BigEndian.encode 32 revision
  isDirectory := if v.isDirectory then 1 else 0
  state := v.state.toDatabase
  attempts := v.attempts.toNat
  nextAttemptAtMs := nextAttemptAt
  createdAtMs := createdAt
  updatedAtMs := updatedAt

/-- The flag of a directory (`purge.rs`, lines 462-465 and 490). -/
def decodeFlag (value : ℤ) : Except String Bool := do
  ensure (value = 0 ∨ value = 1) "Purge directory flag is invalid"
  return decide (value = 1)

/-- `decode_purge_row` (`purge.rs`, lines 461-502). -/
def decodePurgeRow (key : RowKey) (row : PurgeRecord) : Except String PurgeValue := do
  let isDirectory ← decodeFlag row.isDirectory
  let owner ← tryInto 32 key.ownerDigest "Purge owner digest has an invalid length"
  let id ← tryInto 16 key.id "Purge job id has an invalid length"
  let device ← tryInto 8 row.sourceDeviceBe "Purge source device has an invalid length"
  let inode ← tryInto 8 row.sourceInodeBe "Purge source inode has an invalid length"
  let trashRevision ←
    tryIntoOption 32 row.trashRevision "Purge trash revision has an invalid length"
  let state ← StoredPurgeState.fromDatabase row.state
  let attempts ← unsigned 32 row.attempts "Purge attempts in the state database are invalid"
  let job : PurgeValue := ⟨⟨owner, id⟩, ⟨row.targetPath⟩, ⟨row.trashPath⟩, ⟨device, inode⟩,
    trashRevision, isDirectory, state, attempts⟩
  job.validatePaths
  return job

/-! ## Rows of valid values -/

@[simp] theorem tryInto_encode (n : ℕ) (v : BitVec (8 * n)) (msg : String) :
    tryInto n (BigEndian.encode n v) msg = .ok v := by
  rw [tryInto, BigEndian.decode_encode]

@[simp] theorem tryIntoOption_encode (n : ℕ) (v : Option (BitVec (8 * n))) (msg : String) :
    tryIntoOption n (v.map (BigEndian.encode n)) msg = .ok v := by
  cases v with
  | none => rfl
  | some v =>
    show (tryInto n (BigEndian.encode n v) msg).map some = _
    rw [tryInto_encode]
    rfl

@[simp] theorem unsigned_toNat {w : ℕ} (v : BitVec w) (msg : String) :
    unsigned w v.toNat msg = .ok v := by
  have hlt : (v.toNat : ℤ) < 2 ^ w := by exact_mod_cast v.isLt
  rw [unsigned, if_pos ⟨Int.natCast_nonneg _, hlt⟩, Int.toNat_natCast, BitVec.ofNat_toNat,
    BitVec.setWidth_eq]

@[simp] theorem StoredUploadState.fromDatabase_toDatabase (state : StoredUploadState) :
    fromDatabase state.toDatabase = .ok state := by
  cases state <;> rfl

@[simp] theorem StoredPurgeState.fromDatabase_toDatabase (state : StoredPurgeState) :
    fromDatabase state.toDatabase = .ok state := by
  cases state <;> rfl

@[simp] theorem StoredTerminalState.fromDatabase_toDatabase (state : StoredTerminalState) :
    fromDatabase state.toDatabase = .ok state := by
  cases state <;> rfl

@[simp] theorem decodeStageIdentity_encode (identity : Option StoredFileIdentity) :
    decodeStageIdentity (identity.map fun i => BigEndian.encode 8 i.device)
      (identity.map fun i => BigEndian.encode 8 i.inode) = .ok identity := by
  cases identity with
  | none => rfl
  | some identity =>
    simp only [Option.map_some, decodeStageIdentity, tryInto_encode]
    rfl

@[simp] theorem decodeFlag_encode (flag : Bool) : decodeFlag (if flag then 1 else 0) = .ok flag := by
  cases flag <;> rfl

theorem ok_bind {α β : Type} (a : α) (next : α → Except String β) :
    (Except.ok a >>= next) = next a := rfl

theorem decodeUploadRow_ofValue {v : UploadValue} (h : v.Valid) (upd exp : ℤ) :
    decodeUploadRow (.of v.key.owner v.key.id) (.ofValue v upd exp) = .ok v := by
  simp only [decodeUploadRow, UploadRecord.ofValue, RowKey.of, decodeStageIdentity_encode,
    tryInto_encode, unsigned_toNat, StoredUploadState.fromDatabase_toDatabase,
    tryIntoOption_encode, ok_bind]
  rw [unit_bind_eq_ok]
  exact ⟨UploadValue.validate_eq_ok_iff.mpr h, rfl⟩

theorem decodePurgeRow_ofValue {v : PurgeValue} (h : v.Valid) (att cre upd : ℤ) :
    decodePurgeRow (.of v.key.owner v.key.id) (.ofValue v att cre upd) =
      .ok v := by
  simp only [decodePurgeRow, PurgeRecord.ofValue, RowKey.of, decodeFlag_encode, tryInto_encode,
    unsigned_toNat, StoredPurgeState.fromDatabase_toDatabase, tryIntoOption_encode, ok_bind]
  rw [unit_bind_eq_ok]
  exact ⟨PurgeValue.validatePaths_eq_ok_iff.mpr h, rfl⟩

/-- The bytes of different paths differ. -/
theorem PathBuf.bytes_ne {path path' : PathBuf} (h : path.components ≠ path'.components) :
    path.bytes ≠ path'.bytes := by
  intro heq
  apply h
  rw [PathBuf.components, PathBuf.components, heq]

theorem pathLength_passes {path : PathBuf} (h : path.Stored) :
    (pathLength path.bytes).passes = true := by
  have hp := List.length_pos_iff.mpr h.nonempty
  have hs := h.short
  simp only [pathLength, Sql.blobLength_some, Sql.between_some, Sql.Truth.passes_some,
    decide_eq_true_iff]
  omega

theorem hasLength_encode (n : ℕ) (v : BitVec (8 * n)) :
    (hasLength (BigEndian.encode n v) n).passes = true := by
  simp [hasLength]

theorem nullOrLength_encode (n : ℕ) (v : Option (BitVec (8 * n))) :
    (nullOrLength (v.map (BigEndian.encode n)) n).passes = true := by
  cases v with
  | none => rfl
  | some v => simp [nullOrLength, Sql.isNull]

theorem UploadRecord.satisfies_ofValue {v : UploadValue} (h : v.Valid) (upd exp : ℤ) :
    satisfies ((UploadRecord.ofValue v upd exp).checks (.of v.key.owner v.key.id)) =
      true := by
  have hof := h.offset
  have hc := h.complete
  have hdf := PathBuf.bytes_ne h.differ
  have ho := hasLength_encode 32 v.key.owner
  have hid := hasLength_encode 16 v.key.id
  have hd := nullOrLength_encode 8 (v.stageIdentity.map StoredFileIdentity.device)
  have hi := nullOrLength_encode 8 (v.stageIdentity.map StoredFileIdentity.inode)
  have hr := nullOrLength_encode 32 v.targetRevision
  rw [Option.map_map] at hd hi
  simp only [satisfies, UploadRecord.checks, UploadRecord.ofValue, RowKey.of, List.all_cons,
    List.all_nil, Bool.and_true, Bool.and_eq_true]
  refine ⟨ho, hid, pathLength_passes h.targetPath, pathLength_passes h.stagePath, ?_, ?_, ?_,
    hd, hi, hr, ?_, ?_, ?_, ?_, ?_, ?_⟩
  · simp
  · simp
  · cases v.state <;> rfl
  · simp [hdf]
  · rw [Sql.Truth.passes_some]
    exact decide_eq_true (Int.ofNat_le.mpr hof)
  · simp
  -- a state that asks for a complete upload is one for which the validator asks for it
  all_goals
    simp only [Sql.equal_some, Sql.Truth.not_some, Sql.Truth.or_some, Sql.Truth.passes_some,
      Bool.or_eq_true, Bool.not_eq_true', decide_eq_false_iff_not, decide_eq_true_iff]
    rw [or_iff_not_imp_left, not_not]
    intro hst
    rw [hc (by cases hs : v.state <;> simp [hs, StoredUploadState.toDatabase] at hst ⊢)]

theorem PurgeRecord.satisfies_ofValue {v : PurgeValue} (h : v.Valid) (att cre upd : ℤ) :
    satisfies ((PurgeRecord.ofValue v att cre upd).checks (.of v.key.owner v.key.id)) = true := by
  have hd := PathBuf.bytes_ne h.differ
  have ho := hasLength_encode 32 v.key.owner
  have hid := hasLength_encode 16 v.key.id
  have hdv := hasLength_encode 8 v.sourceIdentity.device
  have hi := hasLength_encode 8 v.sourceIdentity.inode
  have hr := nullOrLength_encode 32 v.trashRevision
  simp only [satisfies, PurgeRecord.checks, PurgeRecord.ofValue, RowKey.of, List.all_cons,
    List.all_nil, Bool.and_true, Bool.and_eq_true]
  refine ⟨ho, hid, pathLength_passes h.targetPath, pathLength_passes h.trashPath, hdv,
    hi, hr, ?_, ?_, ?_, ?_⟩
  · cases v.isDirectory <;> rfl
  · cases v.state <;> rfl
  · simp only [Sql.between_some, Sql.Truth.passes_some, decide_eq_true_iff]
    omega
  · simp [hd]

end DufsRam.StateStore
