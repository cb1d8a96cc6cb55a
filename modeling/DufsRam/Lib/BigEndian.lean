import Mathlib

/-!
# Big-endian bytes

A number below `256 ^ n` as `n` bytes, the most significant first, and a bit vector of `8 * n` bits
as an array of `n` bytes.

Results:
* `ofBytes_toBytes`: the bytes of a number give the number back.
* `decode_encode`, `length_encode`: the same for a bit vector.
* `encode_append_inj`, `frame_append_inj`: a field of fixed width, or one with its length in front,
  can be told from what follows it.
* `frames_injective`: a list of byte strings can be read back from its frames.
-/

namespace BigEndian

/-- The last `n` bytes of a number. -/
def toBytes : ℕ → ℕ → List UInt8
  | 0, _ => []
  | n + 1, v => toBytes n (v / 256) ++ [UInt8.ofNat v]

/-- The number with the given bytes. -/
def ofBytes (bytes : List UInt8) : ℕ := bytes.foldl (fun v byte => v * 256 + byte.toNat) 0

@[simp] theorem length_toBytes (n v : ℕ) : (toBytes n v).length = n := by
  induction n generalizing v with
  | zero => rfl
  | succ n ih => rw [toBytes, List.length_append, ih, List.length_singleton]

theorem ofBytes_concat (b : List UInt8) (byte : UInt8) :
    ofBytes (b ++ [byte]) = ofBytes b * 256 + byte.toNat := by
  simp [ofBytes]

theorem ofBytes_toBytes {n v : ℕ} (h : v < 256 ^ n) : ofBytes (toBytes n v) = v := by
  induction n generalizing v with
  | zero =>
    show 0 = v
    omega
  | succ n ih =>
    have hd : v / 256 < 256 ^ n := by
      exact Nat.div_lt_of_lt_mul (by omega)
    rw [toBytes, ofBytes_concat, ih hd, UInt8.toNat_ofNat']
    omega

/-- The array of a bit vector. -/
def encode (n : ℕ) (v : BitVec (8 * n)) : List UInt8 := toBytes n v.toNat

/-- The bit vector of an array; only an array of `n` bytes has one. -/
def decode (n : ℕ) (bytes : List UInt8) : Option (BitVec (8 * n)) :=
  if bytes.length = n then some (BitVec.ofNat (8 * n) (ofBytes bytes)) else none

@[simp] theorem length_encode (n : ℕ) (v : BitVec (8 * n)) : (encode n v).length = n :=
  length_toBytes n v.toNat

@[simp] theorem decode_encode (n : ℕ) (v : BitVec (8 * n)) : decode n (encode n v) = some v := by
  have hlt : v.toNat < 256 ^ n := by
    have := v.isLt
    rwa [pow_mul] at this
  rw [decode, if_pos (length_encode n v), encode, ofBytes_toBytes hlt, BitVec.ofNat_toNat,
    BitVec.setWidth_eq]

theorem encode_injective (n : ℕ) : Function.Injective (encode n) := by
  intro v w h
  have hd := congrArg (decode n) h
  rw [decode_encode, decode_encode] at hd
  exact Option.some.inj hd

theorem toBytes_append_inj {n v w : ℕ} {rest rest' : List UInt8} (hv : v < 256 ^ n)
    (hw : w < 256 ^ n) (h : toBytes n v ++ rest = toBytes n w ++ rest') : v = w ∧ rest = rest' := by
  have hl : (toBytes n v).length = (toBytes n w).length := by simp
  obtain ⟨hb, hr⟩ := List.append_inj h hl
  refine ⟨?_, hr⟩
  rw [← ofBytes_toBytes hv, hb, ofBytes_toBytes hw]

/-- A field of fixed width and what follows it. -/
theorem encode_append_inj {n : ℕ} {v w : BitVec (8 * n)} {rest rest' : List UInt8}
    (h : encode n v ++ rest = encode n w ++ rest') : v = w ∧ rest = rest' := by
  obtain ⟨hb, hr⟩ := List.append_inj h (by simp)
  have hd : decode n (encode n v) = decode n (encode n w) := by rw [hb]
  rw [decode_encode, decode_encode] at hd
  exact ⟨Option.some.inj hd, hr⟩

/-! ## Frames -/

/-- A byte string whose length has `n` bytes. -/
abbrev Sized (n : ℕ) := { bytes : List UInt8 // bytes.length < 256 ^ n }

/-- A byte string after its length. -/
def frame {n : ℕ} (part : Sized n) : List UInt8 := toBytes n part.val.length ++ part.val

/-- Byte strings one after another. -/
def frames {n : ℕ} (parts : List (Sized n)) : List UInt8 := parts.flatMap frame

theorem frame_append_inj {n : ℕ} {x y : Sized n} {rest rest' : List UInt8}
    (h : frame x ++ rest = frame y ++ rest') : x = y ∧ rest = rest' := by
  rw [frame, frame, List.append_assoc, List.append_assoc] at h
  obtain ⟨hl, hb⟩ := toBytes_append_inj x.property y.property h
  obtain ⟨hp, hr⟩ := List.append_inj hb hl
  exact ⟨Subtype.ext hp, hr⟩

theorem frame_append_ne_nil {n : ℕ} (hn : 0 < n) (x : Sized n) (rest : List UInt8) :
    frame x ++ rest ≠ [] := by
  intro h
  have hl := congrArg List.length h
  simp only [frame, List.length_append, length_toBytes, List.length_nil] at hl
  omega

/-- Frames give the byte strings back. -/
theorem frames_injective {n : ℕ} (hn : 0 < n) :
    Function.Injective (frames : List (Sized n) → List UInt8) := by
  intro ps
  induction ps with
  | nil =>
    intro ps' h
    cases ps' with
    | nil => rfl
    | cons y ys => exact absurd h.symm (frame_append_ne_nil hn y (frames ys))
  | cons x xs ih =>
    intro ps' h
    cases ps' with
    | nil => exact absurd h (frame_append_ne_nil hn x (frames xs))
    | cons y ys =>
      obtain ⟨hp, hr⟩ := frame_append_inj h
      rw [hp, ih hr]

end BigEndian
