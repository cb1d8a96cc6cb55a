import DufsRam.Lib.BigEndian
import DufsRam.Lib.Text
import DufsRam.StateStore.Operation

/-!
# Hashed identities

Fingerprints of operations, revisions of upload targets and of trash entries, and the scopes of tag
pages are SHA-256 digests of byte strings put together from parts. The digest is a parameter here;
what is proved is that the byte strings determine their parts, and that the byte strings of the two
kinds of revision differ.

Results:
* `identityBytes_injective`: the fields of a file identity can be read back.
* `targetBytes_inj`, `targetBytes_ne_purgeBytes`: so can owner, path and identity of a target, and no
  target has the byte string of a trash entry.
* `hashed_values_separate`: equal digests come from equal parts.
-/

namespace DufsRam.Revision

open BigEndian StateStore Text

/-! ## Identities -/

/-- The types of `rustix::fs::FileType`. -/
inductive FileType where
  | regularFile
  | directory
  | symlink
  | blockDevice
  | characterDevice
  | fifo
  | socket
  | unknown
deriving DecidableEq

/-- `file_type_revision_tag` (`rooted_fs.rs`, lines 3132-3143). -/
def fileTypeRevisionTag : FileType → UInt8
  | .regularFile => 1
  | .directory => 2
  | .symlink => 3
  | .blockDevice => 4
  | .characterDevice => 5
  | .fifo => 6
  | .socket => 7
  | .unknown => 255

/-- `ExistingReplacementTarget` (`rooted_fs.rs`, lines 113-127), each field as its machine word. -/
@[ext] structure ExistingReplacementTarget where
  device : BitVec 64
  inode : BitVec 64
  fileType : FileType
  links : BitVec 64
  size : BitVec 64
  uid : BitVec 32
  gid : BitVec 32
  mode : BitVec 32
  modifiedSeconds : BitVec 64
  modifiedNanoseconds : BitVec 64
  changedSeconds : BitVec 64
  changedNanoseconds : BitVec 64
deriving DecidableEq

/-- `ReplacementTargetIdentity` (`rooted_fs.rs`, lines 129-133). -/
inductive ReplacementTargetIdentity where
  | missing
  | existing (target : ExistingReplacementTarget)
deriving DecidableEq

/-- What `update_revision_digest` hashes (`rooted_fs.rs`, lines 169-188). -/
def identityBytes : ReplacementTargetIdentity → List UInt8
  | .missing => [0]
  | .existing target =>
    1 :: (encode 8 target.device ++ (encode 8 target.inode ++
      fileTypeRevisionTag target.fileType :: (encode 8 target.links ++ (encode 8 target.size ++
        (encode 4 target.uid ++ (encode 4 target.gid ++ (encode 4 target.mode ++
          (encode 8 target.modifiedSeconds ++ (encode 8 target.modifiedNanoseconds ++
            (encode 8 target.changedSeconds ++ encode 8 target.changedNanoseconds))))))))))

/-! ## Digests -/

/-- A slice of bytes, whose length is a `u64`. -/
abbrev Slice := Sized 8

/-- A `&str`. -/
abbrev Str := { text : String // text.toUTF8.size < 256 ^ 8 }

/-- `str::as_bytes`. -/
def Str.asBytes (text : Str) : Slice :=
  ⟨text.val.toUTF8.data.toList, by
    rw [Array.length_toList]
    exact text.property⟩

/-- A digit of `hex::encode`. -/
def hexDigit (n : ℕ) : Char :=
  if n < 10 then Char.ofNat (48 + n) else Char.ofNat (87 + n)

/-- `hex::encode`. -/
def hexEncode (bytes : List UInt8) : List Char :=
  bytes.flatMap fun byte => [hexDigit (byte.toNat / 16), hexDigit (byte.toNat % 16)]

/-- What `target_revision` hashes for a target that exists (`upload/target.rs`, lines 18-24). -/
def targetBytes (owner : Digest) (path : Slice) (target : ExistingReplacementTarget) : List UInt8 :=
  ascii "xczs-upload-target-revision-v1\x00" ++
    (encode 32 owner ++ (frame path ++ identityBytes (.existing target)))

/-- What `purge_revision` hashes (`rooted_fs.rs`, lines 190-195). -/
def purgeBytes (identity : ReplacementTargetIdentity) : List UInt8 :=
  ascii "xczs-purge-trash-revision-v1\x00" ++ identityBytes identity

section

variable (sha256 : List UInt8 → Vector UInt8 32)

/-- `OperationFingerprint::new` (`operation_registry.rs`, lines 236-245). -/
def operationFingerprint (parts : List Slice) : Vector UInt8 32 := sha256 (frames parts)

/-- `target_revision` (`upload/target.rs`, lines 10-26). -/
def targetRevision (owner : Digest) (canonicalRelativePath : Slice) :
    ReplacementTargetIdentity → Option (Vector UInt8 32)
  | .missing => none
  | .existing target => some (sha256 (targetBytes owner canonicalRelativePath target))

/-- `purge_revision` (`rooted_fs.rs`, lines 190-195). -/
def purgeRevision (identity : ReplacementTargetIdentity) : Vector UInt8 32 :=
  sha256 (purgeBytes identity)

/-- `scope` (`tagging/pagination.rs`, lines 58-65). -/
def scope (parts : List Str) : List Char :=
  hexEncode (sha256 (frames (parts.map Str.asBytes))).toList

end

/-- What `target_revision` hashes, if it hashes anything, is in the set. -/
def TargetHashed (hashed : Set (List UInt8)) (owner : Digest) (path : Slice)
    (identity : ReplacementTargetIdentity) : Prop :=
  ∀ target, identity = .existing target → targetBytes owner path target ∈ hashed

/-! ## Reading the parts back -/

theorem fileTypeRevisionTag_injective : Function.Injective fileTypeRevisionTag := by
  intro t u h
  cases t <;> cases u <;> first | rfl | exact absurd h (by decide)

theorem identityBytes_injective : Function.Injective identityBytes := by
  intro x y h
  cases x with
  | missing =>
    cases y with
    | missing => rfl
    | existing t => simp [identityBytes] at h
  | existing t =>
    cases y with
    | missing => simp [identityBytes] at h
    | existing t' =>
      simp only [identityBytes, List.cons.injEq, true_and] at h
      obtain ⟨hd, h⟩ := encode_append_inj h
      obtain ⟨hi, h⟩ := encode_append_inj h
      obtain ⟨ht, h⟩ := List.cons.inj h
      obtain ⟨hl, h⟩ := encode_append_inj h
      obtain ⟨hs, h⟩ := encode_append_inj h
      obtain ⟨hu, h⟩ := encode_append_inj h
      obtain ⟨hg, h⟩ := encode_append_inj h
      obtain ⟨hmd, h⟩ := encode_append_inj h
      obtain ⟨hm, h⟩ := encode_append_inj h
      obtain ⟨hmn, h⟩ := encode_append_inj h
      obtain ⟨hc, h⟩ := encode_append_inj h
      have hcn : t.changedNanoseconds = t'.changedNanoseconds :=
        (encode_append_inj (congrArg (· ++ []) h)).1
      rw [ExistingReplacementTarget.ext hd hi (fileTypeRevisionTag_injective ht) hl
        hs hu hg hmd hm hmn hc hcn]

theorem targetBytes_inj {owner owner' : Digest} {path path' : Slice}
    {t target' : ExistingReplacementTarget}
    (h : targetBytes owner path t = targetBytes owner' path' target') :
    owner = owner' ∧ path = path' ∧ t = target' := by
  obtain ⟨ho, hr⟩ := encode_append_inj (List.append_cancel_left h)
  obtain ⟨hp, hid⟩ := frame_append_inj hr
  exact ⟨ho, hp, ReplacementTargetIdentity.existing.inj (identityBytes_injective hid)⟩

/-- The two kinds of revision differ in the sixth byte. -/
theorem targetBytes_ne_purgeBytes (owner : Digest) (path : Slice)
    (t : ExistingReplacementTarget) (identity : ReplacementTargetIdentity) :
    targetBytes owner path t ≠ purgeBytes identity := by
  intro h
  have hs := congrArg (fun b => b.take 6) h
  simp only [targetBytes, purgeBytes] at hs
  rw [List.take_append_of_le_length (by decide), List.take_append_of_le_length (by decide)] at hs
  exact absurd hs (by decide)

theorem Str.asBytes_injective : Function.Injective Str.asBytes := by
  intro x y h
  have hb : x.val.toUTF8.data.toList = y.val.toUTF8.data.toList := congrArg Subtype.val h
  apply Subtype.ext
  apply String.toByteArray_inj.mp
  apply ByteArray.ext
  exact Array.toList_inj.mp hb

theorem hexDigit_inj {m n : ℕ} (hm : m < 16) (hn : n < 16) (h : hexDigit m = hexDigit n) :
    m = n := by
  have ha : ∀ i j : Fin 16, hexDigit i = hexDigit j → i = j := by decide
  exact congrArg Fin.val (ha ⟨m, hm⟩ ⟨n, hn⟩ h)

theorem hexEncode_injective : Function.Injective hexEncode := by
  intro b
  induction b with
  | nil =>
    intro b' h
    cases b' with
    | nil => rfl
    | cons y ys => simp [hexEncode] at h
  | cons x xs ih =>
    intro b' h
    cases b' with
    | nil => simp [hexEncode] at h
    | cons y ys =>
      simp only [hexEncode, List.flatMap_cons, List.cons_append, List.nil_append,
        List.cons.injEq] at h
      obtain ⟨hh, hl, hr⟩ := h
      have hx := x.toNat_lt
      have hy := y.toNat_lt
      have hh := hexDigit_inj (by omega) (by omega) hh
      have hl := hexDigit_inj (by omega) (by omega) hl
      have hb : x = y := UInt8.toNat_inj.mp (by omega)
      rw [hb, ih hr]

/-! ## Equal digests -/

/-- Where the digest has no collision among the byte strings that are hashed, fingerprints, target
    revisions and scopes determine their parts, and a trash entry has no revision of a target. -/
theorem hashed_values_separate (sha256 : List UInt8 → Vector UInt8 32) (hashed : Set (List UInt8))
    (hinjective : hashed.InjOn sha256) :
    (∀ parts parts', frames parts ∈ hashed → frames parts' ∈ hashed →
      operationFingerprint sha256 parts = operationFingerprint sha256 parts' → parts = parts') ∧
      (∀ owner path identity owner' path' identity' revision,
        TargetHashed hashed owner path identity → TargetHashed hashed owner' path' identity' →
          targetRevision sha256 owner path identity = some revision →
            targetRevision sha256 owner' path' identity' = some revision →
              owner = owner' ∧ path = path' ∧ identity = identity') ∧
      (∀ parts parts', frames (parts.map Str.asBytes) ∈ hashed →
        frames (parts'.map Str.asBytes) ∈ hashed → scope sha256 parts = scope sha256 parts' →
          parts = parts') ∧
      ∀ owner path identity trash, TargetHashed hashed owner path identity →
        purgeBytes trash ∈ hashed →
          targetRevision sha256 owner path identity ≠ some (purgeRevision sha256 trash) := by
  refine ⟨?_, ?_, ?_, ?_⟩
  · intro parts parts' hp hp' h
    exact frames_injective (by decide) (hinjective hp hp' h)
  · intro owner path identity owner' path' identity' revision ht ht' h h'
    cases identity with
    | missing => cases h
    | existing target =>
      cases identity' with
      | missing => cases h'
      | existing target' =>
        have hd := Option.some.inj (h.trans h'.symm)
        obtain ⟨ho, hp, hi⟩ := targetBytes_inj (hinjective (ht _ rfl) (ht' _ rfl) hd)
        exact ⟨ho, hp, congrArg _ hi⟩
  · intro parts parts' hp hp' h
    have hd := Vector.toList_inj.mp (hexEncode_injective h)
    have hf := frames_injective (by decide) (hinjective hp hp' hd)
    exact List.map_injective_iff.mpr Str.asBytes_injective hf
  · intro owner path identity trash ht htr h
    cases identity with
    | missing => cases h
    | existing target =>
      have hb := hinjective (ht _ rfl) htr (Option.some.inj h)
      exact targetBytes_ne_purgeBytes owner path target trash hb

/-- A digest that tells byte strings apart by their first 32 bytes. -/
def firstBytes (bytes : List UInt8) : Vector UInt8 32 := Vector.ofFn fun i => bytes.getD i 0

theorem hashed_values_separate_parts :
    operationFingerprint firstBytes [⟨[1], by decide⟩, ⟨[2], by decide⟩] ≠
      operationFingerprint firstBytes [⟨[1, 2], by decide⟩] := by
  have hinj : Set.InjOn firstBytes
      {frames [(⟨[1], by decide⟩ : Slice), ⟨[2], by decide⟩],
        frames [(⟨[1, 2], by decide⟩ : Slice)]} :=
    Set.injOn_pair.mpr fun h => absurd h (by decide)
  intro h
  have hp := (hashed_values_separate firstBytes _ hinj).1 _ _ (.inl rfl) (.inr rfl) h
  exact absurd hp (by decide)

end DufsRam.Revision
