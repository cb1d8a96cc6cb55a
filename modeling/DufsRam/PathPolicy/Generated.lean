import Mathlib
import DufsRam.PathPolicy.InternalNames
import DufsRam.RootedFs.Revision

/-!
# Generated internal names

The names the server gives to the stages of uploads, to deleted entries, to entries under
quarantine and to readiness probes (`internal_names.rs`), and the functions that recognise them.

Results:
* `recognises_iff`: what each recogniser accepts.
* `internalNames_separate`: generated names are accepted by their own recogniser only, no text is
  accepted by two, and the stage of an upload determines directory, target name and upload.
-/

namespace DufsRam.PathPolicy

open Revision Text

/-! ## The code -/

/-- `Uuid`, by its bytes. -/
abbrev Uuid := Vector UInt8 16

/-- `encode_hex` (`utils.rs`, lines 37-47). -/
def encodeHex (bytes : List UInt8) : List UInt8 := ascii (String.ofList (hexEncode bytes))

/-- Groups of digits with a hyphen (45) after each but the last. -/
def hyphenate : List ℕ → List UInt8 → List UInt8
  | [], digits => digits
  | n :: groups, digits => digits.take n ++ 45 :: hyphenate groups (digits.drop n)

/-- `Uuid::hyphenated`. -/
def hyphenated (id : Uuid) : List UInt8 := hyphenate [8, 4, 4, 4] (encodeHex id.toList)

/-- The kinds of generated names. -/
inductive GeneratedName where
  | stage
  | trash
  | quarantine
  | readiness
deriving DecidableEq

/-- The constants before the variable part (lines 8-16). -/
def GeneratedName.before : GeneratedName → List UInt8
  | .stage => ascii ".xczs-upload-"
  | .trash => ascii ".xczs-upload-delete-"
  | .quarantine => ascii ".xczs-quarantine-"
  | .readiness => ascii ".xczs-readiness-"

/-- The constants after the variable part (lines 9-17). -/
def GeneratedName.after : GeneratedName → List UInt8
  | .stage => ascii ".part"
  | .trash => ascii ".trash"
  | .quarantine => ascii ".hold"
  | .readiness => ascii ".probe"

/-- `upload_stage_name` (lines 18-20). -/
def uploadStageName (targetTag : List UInt8) (uploadId : Uuid) : List UInt8 :=
  GeneratedName.stage.before ++ (targetTag ++ 45 :: hyphenated uploadId) ++
    GeneratedName.stage.after

/-- A UUID between the two constants of a kind. -/
def taggedName (kind : GeneratedName) (id : Uuid) : List UInt8 :=
  kind.before ++ hyphenated id ++ kind.after

/-- `upload_readiness_probe_name` (lines 23-25). -/
def uploadReadinessProbeName : Uuid → List UInt8 := taggedName .readiness

/-- `delete_trash_name` (lines 27-29). -/
def deleteTrashName : Uuid → List UInt8 := taggedName .trash

/-- `quarantine_name` (lines 31-33). -/
def quarantineName : Uuid → List UInt8 := taggedName .quarantine

/-- `str::is_char_boundary`, on the bytes of the text. -/
def isCharBoundary (value : List UInt8) (i : ℕ) : Bool :=
  match value[i]? with
  | none => i = value.length
  | some byte => !(128 ≤ byte && byte < 192)

/-- `str::get(start..stop)`. -/
def get (value : List UInt8) (start stop : ℕ) : Option (List UInt8) :=
  if stop ≤ value.length ∧ isCharBoundary value start ∧ isCharBoundary value stop then
    some ((value.take stop).drop start)
  else none

/-- What a stage name holds between its constants (lines 100-109). -/
def isStageValue (value : List UInt8) : Bool :=
  (get value 0 64).any (·.all isLowerHex) && get value 64 65 == some [45] &&
    (get value 65 value.length).any isCanonicalUuid

/-- `is_upload_stage_name` (lines 93-110). -/
def isUploadStageName (fileName : List UInt8) : Bool :=
  ((fileName.dropPrefix? (ascii ".xczs-upload-")).bind fun value =>
    value.dropSuffix? (ascii ".part")).any isStageValue

/-- The recogniser of each kind. -/
def recognises : GeneratedName → List UInt8 → Bool
  | .stage => isUploadStageName
  | .trash => isDeleteTrashName
  | .quarantine => isQuarantineName
  | .readiness => isReadinessName

section

variable (sha256 : List UInt8 → Vector UInt8 32) (replaced : List UInt8 → List UInt8)

/-- `OsStr::to_string_lossy`: a text stays as it is, other bytes are replaced. -/
def toStringLossy (fileName : List UInt8) : List UInt8 :=
  if (ByteArray.mk fileName.toArray).validateUTF8 then fileName else replaced fileName

/-- The stage name of a target (lines 42-46). -/
def stageNameOf (fileName : List UInt8) (uploadId : Uuid) : List UInt8 :=
  uploadStageName (encodeHex (sha256 (toStringLossy replaced fileName)).toList) uploadId

/-- `upload_temp_path` (lines 35-47), on the normal components of a path below the root. -/
def uploadTempPath (path : List (List UInt8)) (uploadId : Uuid) : Option (List (List UInt8)) := do
  let fileName ← path.getLast?
  some (path.dropLast ++ [ascii ".xczs-upload-stages", stageNameOf sha256 replaced fileName uploadId])

/-- The name of each kind that is generated for a target and a UUID. -/
def generatedName (fileName : List UInt8) (id : Uuid) : GeneratedName → List UInt8
  | .stage => stageNameOf sha256 replaced fileName id
  | .trash => deleteTrashName id
  | .quarantine => quarantineName id
  | .readiness => uploadReadinessProbeName id

end

/-! ## Digits -/

variable {bytes : List UInt8} {byte : UInt8} {id : Uuid}

theorem encodeHex_eq (bytes : List UInt8) :
    encodeHex bytes = (hexEncode bytes).map fun c => UInt8.ofNat c.toNat := by
  rw [encodeHex, ascii, String.toList_ofList]

theorem mem_hexEncode {c : Char} (h : c ∈ hexEncode bytes) : ∃ n : Fin 16, hexDigit n = c := by
  obtain ⟨byte, -, hc⟩ := List.mem_flatMap.mp h
  have hb := byte.toNat_lt
  rcases List.mem_pair.mp hc with rfl | rfl
  · exact ⟨⟨byte.toNat / 16, by omega⟩, rfl⟩
  · exact ⟨⟨byte.toNat % 16, by omega⟩, rfl⟩

theorem isLowerHex_of_mem (h : byte ∈ encodeHex bytes) : isLowerHex byte = true := by
  have hd : ∀ n : Fin 16, isLowerHex (UInt8.ofNat (hexDigit n).toNat) = true := by decide
  rw [encodeHex_eq, List.mem_map] at h
  obtain ⟨c, hc, rfl⟩ := h
  obtain ⟨n, rfl⟩ := mem_hexEncode hc
  exact hd n

theorem length_encodeHex (bytes : List UInt8) : (encodeHex bytes).length = 2 * bytes.length := by
  rw [encodeHex_eq, List.length_map, hexEncode, List.length_flatMap]
  induction bytes with
  | nil => rfl
  | cons byte bytes ih => rw [List.map_cons, List.sum_cons, ih]; exact Nat.add_comm _ _

theorem encodeHex_injective : Function.Injective encodeHex := by
  have hd : ∀ n : Fin 16, Char.ofNat (UInt8.ofNat (hexDigit n).toNat).toNat = hexDigit n := by decide
  have hr (bytes : List UInt8) : (encodeHex bytes).map (Char.ofNat ·.toNat) = hexEncode bytes := by
    rw [encodeHex_eq, List.map_map]
    refine (List.map_congr_left fun c hc => ?_).trans (List.map_id _)
    obtain ⟨n, rfl⟩ := mem_hexEncode hc
    exact hd n
  intro x y h
  exact hexEncode_injective (by rw [← hr, h, hr])

theorem isLowerHex_lt (h : isLowerHex byte = true) : byte < 128 ∧ byte ≠ 45 := by
  rw [isLowerHex, Bool.or_eq_true, decide_eq_true_iff, decide_eq_true_iff] at h
  grind

theorem filter_hyphenate (groups : List ℕ) {digits : List UInt8} (h : 45 ∉ digits) :
    (hyphenate groups digits).filter (· ≠ 45) = digits := by
  have hf {l : List UInt8} (h : 45 ∉ l) : l.filter (· ≠ 45) = l :=
    List.filter_eq_self.mpr fun _ hm => decide_eq_true (ne_of_mem_of_not_mem hm h)
  induction groups generalizing digits with
  | nil => exact hf h
  | cons n groups ih =>
    rw [hyphenate, List.filter_append, hf (mt List.mem_of_mem_take h)]
    change _ ++ List.filter _ (hyphenate groups _) = _
    rw [ih (mt List.mem_of_mem_drop h), List.take_append_drop]

theorem length_hyphenate (groups : List ℕ) (digits : List UInt8) :
    (hyphenate groups digits).length = digits.length + groups.length := by
  induction groups generalizing digits with
  | nil => rfl
  | cons n groups ih =>
    rw [hyphenate, List.length_append, List.length_cons, ih, List.length_cons, List.length_take,
      List.length_drop]
    omega

/-- The digits are what is left of a UUID without its hyphens. -/
theorem filter_hyphenated (id : Uuid) : (hyphenated id).filter (· ≠ 45) = encodeHex id.toList :=
  filter_hyphenate _ fun h => (isLowerHex_lt (isLowerHex_of_mem h)).2 rfl

theorem mem_hyphenated (h : byte ∈ hyphenated id) : byte = 45 ∨ isLowerHex byte = true := by
  by_cases hb : byte = 45
  · exact .inl hb
  · have hf : byte ∈ (hyphenated id).filter (· ≠ 45) :=
      List.mem_filter.mpr ⟨h, decide_eq_true hb⟩
    exact .inr (isLowerHex_of_mem (filter_hyphenated id ▸ hf))

theorem hyphenated_injective : Function.Injective hyphenated := by
  intro x y h
  have he : encodeHex x.toList = encodeHex y.toList := by
    rw [← filter_hyphenated, h, filter_hyphenated]
  exact Vector.toList_inj.mp (encodeHex_injective he)

/-- A group of digits that no place of a hyphen falls into. -/
theorem all_zipIdx_hex {group : List UInt8} {start : ℕ} (h : ∀ byte ∈ group, isLowerHex byte = true)
    (hi : ∀ i ∈ [8, 13, 18, 23], i < start ∨ start + group.length ≤ i) :
    (group.zipIdx start).all (fun (byte, i) =>
      if i ∈ [8, 13, 18, 23] then byte = 45 else isLowerHex byte) = true := by
  rw [List.all_eq_true]
  rintro ⟨byte, i⟩ hm
  obtain ⟨hs, hl, hb⟩ := List.mem_zipIdx hm
  dsimp only
  rw [if_neg fun hc => by have := hi i hc; omega]
  exact h byte (hb ▸ List.getElem_mem _)

theorem isCanonicalUuid_hyphenated (id : Uuid) : isCanonicalUuid (hyphenated id) = true := by
  have hl := length_encodeHex id.toList
  have hh := @isLowerHex_of_mem id.toList
  rw [isCanonicalUuid, hyphenated, length_hyphenate, hl]
  rw [Vector.length_toList] at hl ⊢
  generalize encodeHex id.toList = digits at hl hh ⊢
  have hg (n k start : ℕ) (h : n + k ≤ 32)
      (hi : ∀ i ∈ [8, 13, 18, 23], i < start ∨ start + k ≤ i) :=
    @all_zipIdx_hex ((digits.drop n).take k) start
      (fun _ h => hh (List.mem_of_mem_drop (List.mem_of_mem_take h)))
      (by rwa [List.length_take, List.length_drop, hl, min_eq_left (by omega)])
  have h0 := hg 0 8 0 (by decide) (by decide)
  have h4 := hg 20 12 24 (by decide) (by decide)
  rw [List.take_of_length_le (by rw [List.length_drop, hl])] at h4
  rw [List.drop_zero] at h0
  simp only [hyphenate, List.drop_drop, List.zipIdx_append, List.zipIdx_cons, List.all_append,
    List.all_cons, List.length_take, List.length_drop, hl, Nat.reduceMul, Nat.reduceAdd,
    Nat.reduceSub, Nat.reduceLeDiff, inf_of_le_left, h0, hg 8 4 9 (by decide) (by decide),
    hg 12 4 14 (by decide) (by decide), hg 16 4 19 (by decide) (by decide), h4]
  decide

/-! ## Recognisers -/

variable {name name' before after : List UInt8} {kind kind' : GeneratedName}

/-- What the recogniser of a kind asks of the text between the constants. -/
def GeneratedName.accepts : GeneratedName → List UInt8 → Bool
  | .stage => isStageValue
  | _ => isCanonicalUuid

theorem any_strip_iff {p : List UInt8 → Bool} :
    ((name.dropPrefix? before).bind fun value => value.dropSuffix? after).any p = true ↔
      ∃ value, name = before ++ value ++ after ∧ p value = true := by
  simp only [Option.any_eq_true, Option.bind_eq_some_iff, List.dropPrefix?_eq_some_iff,
    List.dropSuffix?_eq_some_iff, beq_iff_eq]
  constructor
  · rintro ⟨value, ⟨rest, ⟨_, rfl, rfl⟩, _, rfl, rfl⟩, hp⟩
    exact ⟨value, (List.append_assoc ..).symm, hp⟩
  · rintro ⟨value, rfl, hp⟩
    exact ⟨value, ⟨value ++ after, ⟨before, List.append_assoc .., rfl⟩, after, rfl, rfl⟩, hp⟩

theorem recognises_iff : recognises kind name = true ↔
    ∃ value, name = kind.before ++ value ++ kind.after ∧ kind.accepts value = true := by
  cases kind <;> exact any_strip_iff

/-- The last byte of a name tells its kind. -/
theorem eq_of_recognises (h : recognises kind name = true)
    (h' : recognises kind' name = true) : kind = kind' := by
  have hl (kind : GeneratedName) (value : List UInt8) :
      (kind.before ++ value ++ kind.after).getLast? = kind.after.getLast? := by
    rw [List.getLast?_append]
    cases kind <;> rfl
  obtain ⟨value, hn, -⟩ := recognises_iff.mp h
  obtain ⟨value', hn', -⟩ := recognises_iff.mp h'
  have he : kind.after.getLast? = kind'.after.getLast? := by rw [← hl kind value, ← hn, hn', hl]
  revert he
  cases kind <;> cases kind' <;> decide

theorem get_of_ascii {value : List UInt8} {start stop : ℕ} (h : ∀ byte ∈ value, byte < 128)
    (hs : start ≤ stop) (hl : stop ≤ value.length) :
    get value start stop = some ((value.take stop).drop start) := by
  have hb (i : ℕ) (hi : i ≤ value.length) : isCharBoundary value i = true := by
    rw [isCharBoundary]
    split
    next hn => exact decide_eq_true (Nat.le_antisymm hi (List.getElem?_eq_none_iff.mp hn))
    next byte hg => simp [h byte (List.mem_of_getElem? hg)]
  rw [get, if_pos ⟨hl, hb _ (hs.trans hl), hb _ hl⟩]

theorem isStageValue_append {tag id : List UInt8} (ht : tag.length = 64)
    (hh : ∀ byte ∈ tag, isLowerHex byte = true) (hi : ∀ byte ∈ id, byte < 128)
    (hc : isCanonicalUuid id = true) : isStageValue (tag ++ 45 :: id) = true := by
  have ha : ∀ byte ∈ tag ++ 45 :: id, byte < 128 := by
    intro byte h
    rcases List.mem_append.mp h with h | h
    · exact (isLowerHex_lt (hh byte h)).1
    · rcases List.mem_cons.mp h with rfl | h
      · decide
      · exact hi byte h
  have hl : (tag ++ 45 :: id).length = 65 + id.length := by
    rw [List.length_append, ht, List.length_cons]
    omega
  rw [isStageValue, get_of_ascii ha (by decide) (by omega), get_of_ascii ha (by decide) (by omega),
    get_of_ascii ha (by omega) (by omega), List.take_length]
  have hd : (tag ++ 45 :: id).drop 65 = id := by rw [← List.drop_drop (i := 1), List.drop_left' ht]; rfl
  rw [hd, List.drop_zero, List.take_left' ht, List.drop_take, List.drop_left' ht]
  simpa using ⟨hh, hc⟩

variable {sha256 : List UInt8 → Vector UInt8 32} {replaced : List UInt8 → List UInt8}

theorem generated_recognised (fileName : List UInt8) (id : Uuid) (kind : GeneratedName) :
    recognises kind (generatedName sha256 replaced fileName id kind) = true := by
  rw [recognises_iff]
  have hc := isCanonicalUuid_hyphenated id
  cases kind with
  | stage =>
    refine ⟨_, rfl, isStageValue_append ?_ (fun _ => isLowerHex_of_mem) (fun byte h => ?_) hc⟩
    · rw [length_encodeHex, Vector.length_toList]
    · rcases mem_hyphenated h with rfl | h
      · decide
      · exact (isLowerHex_lt h).1
  | trash => exact ⟨_, rfl, hc⟩
  | quarantine => exact ⟨_, rfl, hc⟩
  | readiness => exact ⟨_, rfl, hc⟩

/-! ## Stages -/

variable {id' : Uuid}

theorem uploadStageName_inj {tag tag' : List UInt8} (hl : tag.length = tag'.length)
    (h : uploadStageName tag id = uploadStageName tag' id') : tag = tag' ∧ id = id' := by
  rw [uploadStageName, uploadStageName] at h
  have hv := List.append_cancel_left (List.append_cancel_right h)
  obtain ⟨ht, hi⟩ := List.append_inj hv hl
  exact ⟨ht, hyphenated_injective (List.cons.inj hi).2⟩

theorem uploadTempPath_inj {parent parent' : List (List UInt8)}
    (h : uploadTempPath sha256 replaced (parent ++ [name]) id =
      uploadTempPath sha256 replaced (parent' ++ [name']) id') :
    parent = parent' ∧ sha256 (toStringLossy replaced name) = sha256 (toStringLossy replaced name') ∧
      id = id' := by
  simp only [uploadTempPath, List.getLast?_concat, List.dropLast_concat, Option.bind_eq_bind,
    Option.bind_some, Option.some.injEq] at h
  obtain ⟨hp, hs⟩ := List.append_inj' h rfl
  obtain ⟨ht, hi⟩ := uploadStageName_inj (by simp only [length_encodeHex, Vector.length_toList])
    (List.cons.inj (List.cons.inj hs).2).1
  exact ⟨hp, Vector.toList_inj.mp (encodeHex_injective ht), hi⟩

/-- Each generated name is accepted by its own recogniser and by no other, no text is accepted by
two of them, and where the digest separates the names of the targets, the path of a stage
determines directory, name and upload. -/
theorem internalNames_separate (sha256 : List UInt8 → Vector UInt8 32)
    (replaced : List UInt8 → List UInt8) :
    (∀ fileName id kind kind',
      recognises kind (generatedName sha256 replaced fileName id kind') = true ↔ kind = kind') ∧
    (∀ text kind kind', recognises kind text = true → recognises kind' text = true →
      kind = kind') ∧
    ∀ names : Set (List UInt8),
      (∀ name ∈ names, (ByteArray.mk name.toArray).IsValidUTF8) → names.InjOn sha256 →
      Set.InjOn (fun triple : List (List UInt8) × List UInt8 × Uuid =>
        uploadTempPath sha256 replaced (triple.1 ++ [triple.2.1]) triple.2.2)
        { triple | triple.2.1 ∈ names } := by
  refine ⟨fun fileName id kind kind' => ⟨fun h => ?_, fun h => ?_⟩,
    fun text kind kind' => eq_of_recognises, fun names hv hs => ?_⟩
  · exact eq_of_recognises h (generated_recognised fileName id kind')
  · exact h ▸ generated_recognised fileName id kind
  · rintro ⟨parent, name, id⟩ hn ⟨parent', name', id'⟩ hn' h
    have hl (name : List UInt8) (hn : name ∈ names) : toStringLossy replaced name = name :=
      if_pos (ByteArray.validateUTF8_eq_true_iff.mpr (hv name hn))
    obtain ⟨rfl, hd, rfl⟩ := uploadTempPath_inj h
    rw [hl name hn, hl name' hn'] at hd
    exact congrArg (parent, ·, id) (hs hn hn' hd)

end DufsRam.PathPolicy
