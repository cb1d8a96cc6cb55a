import Mathlib

/-!
# Cutting texts at character boundaries

A text is a list of characters and positions in it count the bytes of its UTF-8 form
(`String.utf8Len`). A position is usable when it lies between two characters.

Results:
* `takeBytes_floorCharBoundary`: going down to a character boundary and cutting there keeps the
  characters that lie before the position.
* `takeBytes_lt`: the first character that is cut off reaches beyond the position.
-/

namespace Utf8

open String

/-- `str::is_char_boundary`: the position is between two characters or at an end. -/
def isCharBoundary : List Char → ℕ → Bool
  | _, 0 => true
  | [], _ + 1 => false
  | c :: text, n + 1 => c.utf8Size ≤ n + 1 && isCharBoundary text (n + 1 - c.utf8Size)

/-- `&text[..n]`: the characters before a position. -/
def takeBytes : List Char → ℕ → List Char
  | [], _ => []
  | c :: text, n => if c.utf8Size ≤ n then c :: takeBytes text (n - c.utf8Size) else []

/-- `while !text.is_char_boundary(n) { n -= 1 }`. -/
def floorCharBoundary (text : List Char) : ℕ → ℕ
  | 0 => 0
  | n + 1 => if isCharBoundary text (n + 1) then n + 1 else floorCharBoundary text n

theorem isPrefix_takeBytes (text : List Char) (n : ℕ) : takeBytes text n <+: text := by
  induction text generalizing n with
  | nil => exact List.prefix_rfl
  | cons c text ih =>
    rw [takeBytes]
    split
    · exact (List.prefix_cons_inj c).mpr (ih _)
    · exact List.nil_prefix

theorem utf8Len_takeBytes_le (text : List Char) (n : ℕ) :
    utf8Len (takeBytes text n) ≤ n := by
  induction text generalizing n with
  | nil => exact Nat.zero_le n
  | cons c text ih =>
    rw [takeBytes]
    split
    · have := ih (n - c.utf8Size)
      rw [utf8Len_cons]
      omega
    · exact Nat.zero_le n

theorem takeBytes_of_le {text : List Char} {n : ℕ} (h : utf8Len text ≤ n) :
    takeBytes text n = text := by
  induction text generalizing n with
  | nil => rfl
  | cons c text ih =>
    rw [utf8Len_cons] at h
    rw [takeBytes, if_pos (by omega), ih (by omega)]

theorem takeBytes_append (text rest : List Char) (n : ℕ) :
    takeBytes (text ++ rest) (utf8Len text + n) = text ++ takeBytes rest n := by
  induction text with
  | nil => simp
  | cons c text ih =>
    rw [utf8Len_cons, List.cons_append, takeBytes, if_pos (by omega),
      show utf8Len text + c.utf8Size + n - c.utf8Size = utf8Len text + n by omega, ih,
      List.cons_append]

theorem takeBytes_min (text : List Char) (n : ℕ) :
    takeBytes text (min (utf8Len text) n) = takeBytes text n := by
  rcases Nat.le_total (utf8Len text) n with h | h
  · rw [min_eq_left h, takeBytes_of_le h, takeBytes_of_le le_rfl]
  · rw [min_eq_right h]

/-- What is cut off begins with a character that reaches beyond the position. -/
theorem takeBytes_lt {text : List Char} {n : ℕ} (h : n < utf8Len text) :
    ∃ c rest, text = takeBytes text n ++ c :: rest ∧
      n < utf8Len (takeBytes text n) + c.utf8Size := by
  induction text generalizing n with
  | nil => exact absurd h (Nat.not_lt_zero n)
  | cons c text ih =>
    rw [utf8Len_cons] at h
    rw [takeBytes]
    split
    next hc =>
      obtain ⟨d, rest, ht, hd⟩ := ih (n := n - c.utf8Size) (by omega)
      refine ⟨d, rest, congrArg (c :: ·) ht, ?_⟩
      rw [utf8Len_cons]
      omega
    next hc => exact ⟨c, text, rfl, by simpa using hc⟩

/-- Between two positions without a boundary no character ends. -/
theorem takeBytes_succ {text : List Char} {n : ℕ} (h : isCharBoundary text (n + 1) = false) :
    takeBytes text (n + 1) = takeBytes text n := by
  induction text generalizing n with
  | nil => rfl
  | cons c text ih =>
    rw [isCharBoundary, Bool.and_eq_false_iff, decide_eq_false_iff_not] at h
    rw [takeBytes, takeBytes]
    by_cases hc : c.utf8Size ≤ n
    · rw [if_pos (by omega), if_pos hc, show n + 1 - c.utf8Size = n - c.utf8Size + 1 by omega]
      rw [ih (by simpa [show n + 1 - c.utf8Size = n - c.utf8Size + 1 by omega, hc,
        Nat.le_succ_of_le hc] using h)]
    · have hn : ¬c.utf8Size ≤ n + 1 := by
        rcases h with h | h
        · exact h
        · intro hle
          rw [show n + 1 - c.utf8Size = 0 by omega, isCharBoundary] at h
          cases h
      rw [if_neg hn, if_neg hc]

theorem takeBytes_floorCharBoundary (text : List Char) (n : ℕ) :
    takeBytes text (floorCharBoundary text n) = takeBytes text n := by
  induction n with
  | zero => rfl
  | succ n ih =>
    rw [floorCharBoundary]
    split
    · rfl
    next h => rw [ih, takeBytes_succ (by simpa using h)]

end Utf8
