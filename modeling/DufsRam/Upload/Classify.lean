import DufsRam.Upload.Response

/-!
# How the browser reads an upload response

Model of `classifyUploadResponse` and `parseBoundUploadProtocol`
(`web/modules/upload/protocol.ts`, lines 1-232 and 256-280) with `parseUnsignedHeader`
(`web/modules/http/headers.ts`, lines 4-10). A response has at most one value for each header; the
id and the state are compared as the values that their canonical texts stand for.

Results:
* `kind_eq_declared`: which responses are read as the state they declare.
-/

namespace DufsRam.Upload

open StateStore

/-! ## The tables -/

/-- `UploadRequestPhase` (line 10). -/
inductive UploadRequestPhase where
  | fresh
  | resume
  | checkpoint
  | discard
deriving DecidableEq

/-- `FieldPresence` (line 12). -/
inductive FieldPresence where
  | absent
  | optional
  | required
deriving DecidableEq

/-- `UPLOAD_RESPONSE_STATUS_MATRIX` (lines 41-94). -/
def uploadResponseStatusMatrix : UploadRequestPhase → UploadPublicState → List ℕ
  | .fresh, .running => [408, 409]
  | .fresh, .awaitingConfirmation => [409]
  | .fresh, .committed => [200, 201]
  | .resume, .running | .resume, .awaitingConfirmation => [408, 409, 413, 500, 507]
  | .resume, .committed => [200, 204]
  | .fresh, .rejected | .resume, .rejected => [408, 409, 413, 500, 507]
  | .fresh, .notSeen | .resume, .notSeen => [404]
  | .fresh, .notStarted | .resume, .notStarted => [403, 404, 408, 409, 429, 503]
  | .fresh, .unknown | .resume, .unknown => [408, 500, 503, 504]
  | .checkpoint, .running | .checkpoint, .committed => [200]
  | .checkpoint, .awaitingConfirmation | .checkpoint, .rejected => [409]
  | .checkpoint, .notSeen => [404]
  | .checkpoint, .notStarted => []
  | .checkpoint, .unknown => [429, 500, 503]
  | .discard, .rejected => [204]
  | .discard, _ => []

/-- `UPLOAD_STATE_RULES` (lines 100-131): the rules for the length and for the offset. -/
def uploadStateRules : UploadPublicState → FieldPresence × FieldPresence
  | .running | .awaitingConfirmation | .committed => (.required, .required)
  | .rejected | .notStarted => (.required, .optional)
  | .notSeen => (.absent, .absent)
  | .unknown => (.optional, .optional)

/-! ## Headers -/

/-- `Number.MAX_SAFE_INTEGER`. -/
def maxSafeInteger : ℕ := 2 ^ 53 - 1

/-- `parseUnsignedHeader` on canonical digits. -/
def parseUnsignedHeader (value : Option ℕ) : Option ℕ :=
  value.filter fun n => decide (n ≤ maxSafeInteger)

/-- `matchesBoundField` (lines 256-269). -/
def matchesBoundField (rawValue parsedValue : Option ℕ) (presence : FieldPresence)
    (expectedLength : ℕ) (isOffset : Bool) : Bool :=
  if presence = .absent then rawValue.isNone
  else if rawValue.isNone then decide (presence = .optional)
  else
    match parsedValue with
    | none => false
    | some parsed =>
      if isOffset then decide (parsed ≤ expectedLength) else decide (parsed = expectedLength)

/-- `BoundUploadProtocol` (lines 16-21). -/
structure BoundUploadProtocol where
  uploadId : Uuid
  state : UploadPublicState
  length : Option ℕ
  offset : Option ℕ
deriving DecidableEq

/-- `parseBoundUploadProtocol` (lines 205-232). -/
def parseBoundUploadProtocol (response : UploadResponse) (expectedUploadId : Uuid)
    (expectedLength : ℕ) : Option BoundUploadProtocol :=
  if maxSafeInteger < expectedLength then none
  else
    match response.state with
    | none => none
    | some state =>
      let length := parseUnsignedHeader response.length
      let offset := parseUnsignedHeader response.offset
      if response.uploadId ≠ some expectedUploadId then none
      else if !matchesBoundField response.length length (uploadStateRules state).1 expectedLength
          false then none
      else if !matchesBoundField response.offset offset (uploadStateRules state).2 expectedLength
          true then none
      else some ⟨expectedUploadId, state, length, offset⟩

/-! ## Classification -/

/-- The `kind` of `UploadClassification` (line 24). -/
inductive UploadKind where
  | authentication
  | csrf
  | invalid
  | declared (state : UploadPublicState)
deriving DecidableEq

/-- `UploadClassification` (lines 23-27). -/
structure UploadClassification where
  kind : UploadKind
  protocol : Option BoundUploadProtocol
  outcomeUnknown : Bool
deriving DecidableEq

/-- `classifyUploadResponse` (lines 140-193). `csrfRejected` if the error code of the body is
    `auth.csrf_rejected`. -/
def classifyUploadResponse (phase : UploadRequestPhase) (csrfRejected : Bool)
    (response : UploadResponse) (expectedUploadId : Uuid) (expectedLength : ℕ) :
    UploadClassification :=
  if response.status < 100 ∨ 599 < response.status then ⟨.invalid, none, true⟩
  else if response.status = 401 then ⟨.authentication, none, false⟩
  else if response.status = 403 ∧ csrfRejected then ⟨.csrf, none, false⟩
  else
    match parseBoundUploadProtocol response expectedUploadId expectedLength with
    | none => ⟨.invalid, none, true⟩
    | some protocol =>
      if response.status ∉ uploadResponseStatusMatrix phase protocol.state ∨
          (phase = .checkpoint ∧ response.status = 429 ∧ protocol.state = .unknown ∧
            (protocol.length ≠ none ∨ protocol.offset ≠ none)) ∨
          (protocol.state = .committed ∧ protocol.offset ≠ some expectedLength) ∨
          (phase = .discard ∧ protocol.state = .rejected ∧
            protocol.offset ≠ some expectedLength) then
        ⟨.invalid, some protocol, true⟩
      else
        ⟨.declared protocol.state, some protocol,
          decide (protocol.state = .unknown) ||
            (decide (protocol.state = .running) && decide (phase ≠ .checkpoint))⟩

/-! ## What is read back -/

/-- The length and the offset that go with a state. -/
def UploadPublicState.Fits (expectedLength : ℕ) (length offset : Option ℕ) :
    UploadPublicState → Prop
  | .running | .awaitingConfirmation =>
    length = some expectedLength ∧ ∃ n ≤ expectedLength, offset = some n
  | .committed => length = some expectedLength ∧ offset = some expectedLength
  | .rejected | .notStarted =>
    length = some expectedLength ∧ ∀ n, offset = some n → n ≤ expectedLength
  | .notSeen => length = none ∧ offset = none
  | .unknown =>
    (∀ n, length = some n → n = expectedLength) ∧ ∀ n, offset = some n → n ≤ expectedLength

section

variable {phase : UploadRequestPhase} {response : UploadResponse} {uploadId : Uuid}
  {expectedLength : ℕ} {state : UploadPublicState}

theorem parseUnsignedHeader_some {n : ℕ} (h : n ≤ maxSafeInteger) :
    parseUnsignedHeader (some n) = some n := by
  simp [parseUnsignedHeader, h]

/-- A length that fits is accepted. -/
theorem matchesBoundField_length (hs : expectedLength ≤ maxSafeInteger)
    {len off : Option ℕ} (hf : state.Fits expectedLength len off) :
    matchesBoundField len (parseUnsignedHeader len) (uploadStateRules state).1
      expectedLength false = true := by
  have hpr : len = some expectedLength → ∀ presence, presence ≠ .absent →
      matchesBoundField len (parseUnsignedHeader len) presence expectedLength false = true := by
    rintro rfl presence hp
    simp [matchesBoundField, parseUnsignedHeader_some hs, hp]
  cases state with
  | running | awaitingConfirmation | committed | rejected | notStarted =>
    exact hpr hf.1 _ (by decide)
  | notSeen =>
    rw [hf.1]
    rfl
  | unknown =>
    cases len with
    | none => rfl
    | some n => exact hpr (congrArg some (hf.1 n rfl)) _ (by decide)

/-- An offset that fits is accepted. -/
theorem matchesBoundField_offset (hs : expectedLength ≤ maxSafeInteger)
    {len off : Option ℕ} (hf : state.Fits expectedLength len off) :
    matchesBoundField off (parseUnsignedHeader off) (uploadStateRules state).2
      expectedLength true = true := by
  have hp (n : ℕ) (hn : n ≤ expectedLength) (presence : FieldPresence) (hpr : presence ≠ .absent) :
      matchesBoundField (some n) (parseUnsignedHeader (some n)) presence expectedLength true =
        true := by
    simp [matchesBoundField, parseUnsignedHeader_some (hn.trans hs), hpr, hn]
  have ho (h : ∀ n, off = some n → n ≤ expectedLength) :
      matchesBoundField off (parseUnsignedHeader off) .optional expectedLength true = true := by
    cases off with
    | none => rfl
    | some n => exact hp n (h n rfl) _ (by decide)
  cases state with
  | running | awaitingConfirmation =>
    obtain ⟨n, hn, hof⟩ := hf.2
    rw [hof]
    exact hp n hn _ (by decide)
  | committed =>
    rw [hf.2]
    exact hp expectedLength le_rfl _ (by decide)
  | rejected | notStarted | unknown => exact ho hf.2
  | notSeen =>
    rw [hf.2]
    rfl

theorem parseBoundUploadProtocol_eq_some (hs : expectedLength ≤ maxSafeInteger)
    (hid : response.uploadId = some uploadId) (hst : response.state = some state)
    (hf : state.Fits expectedLength response.length response.offset) :
    parseBoundUploadProtocol response uploadId expectedLength =
      some ⟨uploadId, state, parseUnsignedHeader response.length,
        parseUnsignedHeader response.offset⟩ := by
  simp [parseBoundUploadProtocol, hid, hst, hs, matchesBoundField_length hs hf,
    matchesBoundField_offset hs hf]

/-- Every status of the matrix is one of a response, and not 401. -/
theorem status_of_mem_matrix {st : ℕ} (h : st ∈ uploadResponseStatusMatrix phase state) :
    100 ≤ st ∧ st ≤ 599 ∧ st ≠ 401 := by
  cases phase <;> cases state <;> simp [uploadResponseStatusMatrix] at h <;> omega

/-- A response with a status of the matrix and numbers that fit is read as the state it declares.
    The answer 429 to a query must not have any number. -/
theorem kind_eq_declared {csrfRejected : Bool} (hs : expectedLength ≤ maxSafeInteger)
    (hid : response.uploadId = some uploadId) (hsta : response.state = some state)
    (hf : state.Fits expectedLength response.length response.offset)
    (hst : response.status ∈ uploadResponseStatusMatrix phase state)
    (hcs : response.status ≠ 403) (hp : phase ≠ .discard)
    (hlm : response.status = 429 → state = .unknown →
      response.length = none ∧ response.offset = none) :
    (classifyUploadResponse phase csrfRejected response uploadId expectedLength).kind =
      .declared state := by
  obtain ⟨hlw, hh, ha⟩ := status_of_mem_matrix hst
  have hc : state = .committed → parseUnsignedHeader response.offset = some expectedLength := by
    rintro rfl
    rw [hf.2]
    exact parseUnsignedHeader_some hs
  have hb : response.status = 429 → state = .unknown →
      parseUnsignedHeader response.length = none ∧ parseUnsignedHeader response.offset = none := by
    intro h429 hu
    obtain ⟨hl, ho⟩ := hlm h429 hu
    rw [hl, ho]
    exact ⟨rfl, rfl⟩
  rw [classifyUploadResponse, if_neg (by omega), if_neg ha, if_neg (fun h => hcs h.1),
    parseBoundUploadProtocol_eq_some hs hid hsta hf]
  simp only
  rw [if_neg]
  rintro (hm | ⟨-, h429, hu, hn⟩ | ⟨hs', ho⟩ | ⟨hd, -⟩)
  · exact hm hst
  · obtain ⟨hl, ho⟩ := hb h429 hu
    exact hn.elim (fun h => h hl) fun h => h ho
  · exact ho (hc hs')
  · exact hp hd

end

end DufsRam.Upload
