import Mathlib
import DufsRam.Lib.Utf8

/-!
# One bounded log entry

`BoundedLogLine` collects the texts pushed to it and cuts the entry, with a suffix that says so,
when it would grow beyond `MAX_LOG_ENTRY_BYTES`. The push that overflows may first shorten what
earlier pushes left, at a character boundary, and then append as much of its own text as fits.

Results:
* `logLine_law`: which sequences of pushes give their concatenation, or a beginning of it with
  the suffix.
* `logLine_skips_character`: a cut that leaves out a character and goes on after it.
-/

namespace DufsRam.Logger

open Utf8 String

/-! ## The code -/

/-- `MAX_LOG_ENTRY_BYTES` (`logger.rs` line 32). -/
def maxLogEntryBytes : ℕ := 16 * 1024

/-- `LOG_TRUNCATION_SUFFIX` (`logger.rs` line 33). -/
def logTruncationSuffix : List Char := "...[truncated]".toList

/-- `content_limit` (`logger.rs` line 59). -/
def contentLimit : ℕ := maxLogEntryBytes - utf8Len logTruncationSuffix

/-- `BoundedLogLine` (`logger.rs` lines 37-40). -/
structure BoundedLogLine where
  value : List Char
  truncated : Bool
deriving DecidableEq

namespace BoundedLogLine

/-- `BoundedLogLine::new` (`logger.rs` lines 43-48). -/
def new : BoundedLogLine := ⟨[], false⟩

/-- `BoundedLogLine::push_str` (`logger.rs` lines 50-75). -/
def pushStr (line : BoundedLogLine) (value : List Char) : BoundedLogLine :=
  if line.truncated then line
  else if utf8Len value ≤ maxLogEntryBytes - utf8Len line.value then
    { line with value := line.value ++ value }
  else
    let kept :=
      if contentLimit < utf8Len line.value then
        takeBytes line.value (floorCharBoundary line.value contentLimit)
      else line.value
    let stop := floorCharBoundary value
      (min (utf8Len value) (contentLimit - utf8Len kept))
    ⟨kept ++ takeBytes value stop ++ logTruncationSuffix, true⟩

/-- The entry after a sequence of pushes. -/
def pushAll (texts : List (List Char)) : BoundedLogLine := texts.foldl pushStr new

end BoundedLogLine

/-! ## What a sequence of pushes leaves -/

open BoundedLogLine

/-- What the push that overflows keeps of the entry. -/
def kept (text : List Char) : List Char := takeBytes text contentLimit

/-- What it appends of its own text. -/
def appended (text value : List Char) : List Char :=
  takeBytes value (contentLimit - utf8Len (kept text))

/-- The first push that does not fit, after the texts `before`. -/
structure Overflows (before : List (List Char)) (text : List Char) : Prop where
  fits : utf8Len before.flatten ≤ maxLogEntryBytes
  exceeds : maxLogEntryBytes < utf8Len (before.flatten ++ text)

variable {before after texts : List (List Char)} {text value : List Char}

theorem pushStr_fits (h : utf8Len (text ++ value) ≤ maxLogEntryBytes) :
    pushStr ⟨text, false⟩ value = ⟨text ++ value, false⟩ := by
  rw [utf8Len_append] at h
  rw [pushStr, if_neg Bool.false_ne_true, if_pos (by dsimp only; omega)]

/-- Both searches for a boundary keep what lies before the limit. -/
theorem pushStr_overflow (ht : utf8Len text ≤ maxLogEntryBytes)
    (h : maxLogEntryBytes < utf8Len (text ++ value)) :
    pushStr ⟨text, false⟩ value =
      ⟨kept text ++ appended text value ++ logTruncationSuffix, true⟩ := by
  rw [utf8Len_append] at h
  have hk : (if contentLimit < utf8Len text then
      takeBytes text (floorCharBoundary text contentLimit) else text) = kept text := by
    split
    · exact takeBytes_floorCharBoundary text contentLimit
    next hl => exact (takeBytes_of_le (Nat.le_of_not_lt hl)).symm
  rw [pushStr, if_neg Bool.false_ne_true, if_neg (by dsimp only; omega)]
  dsimp only
  rw [hk, takeBytes_floorCharBoundary, takeBytes_min, appended]

theorem foldl_pushStr_truncated (line : BoundedLogLine) (texts : List (List Char))
    (h : line.truncated = true) : texts.foldl pushStr line = line := by
  induction texts with
  | nil => rfl
  | cons text texts ih => rwa [List.foldl_cons, pushStr, if_pos h]

theorem pushAll_fits (h : utf8Len texts.flatten ≤ maxLogEntryBytes) :
    pushAll texts = ⟨texts.flatten, false⟩ := by
  induction texts using List.reverseRecOn with
  | nil => rfl
  | append_singleton texts text ih =>
    rw [List.flatten_append, List.flatten_singleton] at h
    have ht := ih (by rw [utf8Len_append] at h; omega)
    rw [pushAll] at ht
    rw [pushAll, List.foldl_append, ht, List.flatten_append, List.flatten_singleton]
    exact pushStr_fits h

/-- The entry is decided by the first push that does not fit. -/
theorem pushAll_overflow (h : Overflows before text) : (pushAll (before ++ text :: after)).value =
    kept before.flatten ++ appended before.flatten text ++ logTruncationSuffix := by
  have hp := pushAll_fits h.fits
  rw [pushAll] at hp
  rw [pushAll, List.foldl_append, hp, List.foldl_cons, pushStr_overflow h.fits h.exceeds,
    foldl_pushStr_truncated _ _ rfl]

theorem exists_overflow (h : maxLogEntryBytes < utf8Len texts.flatten) :
    ∃ before text after, texts = before ++ text :: after ∧ Overflows before text := by
  induction texts using List.reverseRecOn with
  | nil => exact absurd h (by decide)
  | append_singleton texts text ih =>
    by_cases hf : utf8Len texts.flatten ≤ maxLogEntryBytes
    · rw [List.flatten_append, List.flatten_singleton] at h
      exact ⟨texts, text, [], rfl, hf, h⟩
    · obtain ⟨before, t, after, rfl, ho⟩ := ih (by omega)
      exact ⟨before, t, after ++ [text], by simp, ho⟩

theorem utf8Len_pushAll_le (texts : List (List Char)) :
    utf8Len (pushAll texts).value ≤ maxLogEntryBytes := by
  by_cases h : utf8Len texts.flatten ≤ maxLogEntryBytes
  · rwa [pushAll_fits h]
  obtain ⟨before, text, after, rfl, ho⟩ := exists_overflow (Nat.lt_of_not_le h)
  rw [pushAll_overflow ho, utf8Len_append, utf8Len_append]
  have hk : utf8Len (kept before.flatten) ≤ contentLimit := utf8Len_takeBytes_le _ _
  have hn : utf8Len (appended before.flatten text) ≤ contentLimit - utf8Len (kept before.flatten) :=
    utf8Len_takeBytes_le _ _
  have hs : contentLimit + utf8Len logTruncationSuffix = maxLogEntryBytes := by decide
  omega

/-! ## The law of the entry -/

/-- The entry is the concatenation if that fits, and a beginning of it with the suffix otherwise; it
is never longer than the bound. -/
def Truncates (texts : List (List Char)) : Prop :=
  utf8Len (pushAll texts).value ≤ maxLogEntryBytes ∧
  (utf8Len texts.flatten ≤ maxLogEntryBytes → (pushAll texts).value = texts.flatten) ∧
  (maxLogEntryBytes < utf8Len texts.flatten →
    ∃ start, start <+: texts.flatten ∧ (pushAll texts).value = start ++ logTruncationSuffix)

/-- When a push overflows an entry that is beyond `content_limit` already, not even the first
character of its text fits into what cutting at a boundary leaves free. -/
def CutsClean (texts : List (List Char)) : Prop :=
  ∀ before text after, texts = before ++ text :: after → Overflows before text →
    contentLimit < utf8Len before.flatten → ∀ first ∈ text.head?,
      contentLimit - utf8Len (takeBytes before.flatten contentLimit) < first.utf8Size

theorem appended_eq_nil_iff : appended text value = [] ↔
    ∀ first ∈ value.head?, contentLimit - utf8Len (kept text) < first.utf8Size := by
  rw [appended]
  cases value with
  | nil => simp [takeBytes]
  | cons d value => simp [takeBytes]

/-- Nothing may follow a text that was cut inside. -/
theorem cut_prefix_iff (rest : List Char) (h : contentLimit < utf8Len text) :
    kept text ++ appended text value <+: text ++ (value ++ rest) ↔ appended text value = [] := by
  obtain ⟨c, left, hk, hc⟩ := takeBytes_lt h
  have hl := utf8Len_takeBytes_le text contentLimit
  rw [appended, kept]
  generalize takeBytes text contentLimit = start at hk hc hl ⊢
  rw [hk, List.append_assoc, List.prefix_append_right_inj]
  cases value with
  | nil => simp [takeBytes]
  | cons d value =>
    rw [takeBytes]
    split
    next hd =>
      -- the character that fits is shorter than the one that was cut off
      have hne : d ≠ c := by
        rintro rfl
        omega
      simp [hne]
    · simp

theorem exists_start_iff (h : Overflows before text) (hl : contentLimit < utf8Len before.flatten) :
    (∃ start, start <+: (before ++ text :: after).flatten ∧
        (pushAll (before ++ text :: after)).value = start ++ logTruncationSuffix) ↔
      ∀ first ∈ text.head?,
        contentLimit - utf8Len (kept before.flatten) < first.utf8Size := by
  rw [← appended_eq_nil_iff, ← cut_prefix_iff after.flatten hl, pushAll_overflow h,
    List.flatten_append, List.flatten_cons]
  constructor
  · rintro ⟨start, hp, he⟩
    rwa [List.append_cancel_right he]
  · exact fun hp => ⟨_, hp, rfl⟩

/-- The entry is a beginning of what was pushed exactly when no character is left out at the
cut. -/
theorem logLine_law (texts : List (List Char)) : Truncates texts ↔ CutsClean texts := by
  constructor
  · rintro ⟨-, -, ht⟩ before text after rfl ho hl
    refine (exists_start_iff ho hl).mp (ht ?_)
    rw [List.flatten_append, List.flatten_cons, ← List.append_assoc, utf8Len_append]
    exact Nat.lt_add_right _ ho.exceeds
  · intro hc
    refine ⟨utf8Len_pushAll_le texts, fun h => by rw [pushAll_fits h], fun h => ?_⟩
    obtain ⟨before, text, after, rfl, ho⟩ := exists_overflow h
    by_cases hl : contentLimit < utf8Len before.flatten
    · exact (exists_start_iff ho hl).mpr (hc before text after rfl ho hl)
    · refine ⟨_, ?_, pushAll_overflow ho⟩
      rw [kept, takeBytes_of_le (Nat.le_of_not_lt hl), List.flatten_append, List.flatten_cons]
      exact (List.prefix_append_right_inj _).mpr
        ((isPrefix_takeBytes _ _).trans (List.prefix_append _ _))

theorem utf8Len_replicate (n : ℕ) (c : Char) : utf8Len (List.replicate n c) = n * c.utf8Size := by
  induction n with
  | zero => exact (Nat.zero_mul _).symm
  | succ n ih => rw [List.replicate_succ, utf8Len_cons, ih, Nat.succ_mul]

/-- A two-byte character across the limit is cut off and the next push continues in its place. -/
theorem logLine_skips_character :
    ¬Truncates [List.replicate 16369 'a' ++ ['é'], List.replicate 14 'b'] := by
  have ha : utf8Len (List.replicate 16369 'a') = 16369 := utf8Len_replicate 16369 'a'
  have hb : utf8Len (List.replicate 14 'b') = 14 := utf8Len_replicate 14 'b'
  have hk : kept (List.replicate 16369 'a' ++ ['é']) = List.replicate 16369 'a' := by
    have := takeBytes_append (List.replicate 16369 'a') ['é'] 1
    rwa [ha, show takeBytes ['é'] 1 = [] by decide, List.append_nil] at this
  have hf : utf8Len [List.replicate 16369 'a' ++ ['é']].flatten = 16371 := by
    rw [List.flatten_singleton, utf8Len_append, ha]
    rfl
  have hm : maxLogEntryBytes = 16384 := rfl
  have hc : contentLimit = 16370 := by decide
  have ho : Overflows [List.replicate 16369 'a' ++ ['é']] (List.replicate 14 'b') := by
    refine ⟨?_, ?_⟩
    · rw [hf, hm]
      decide
    · rw [utf8Len_append, hf, hb, hm]
      decide
  rintro ⟨-, -, ht⟩
  have hv := ho.exceeds
  rw [List.flatten_singleton] at hv
  have hg := (exists_start_iff ho (by rw [hf, hc]; decide)).mp
    (ht (by rwa [List.flatten_cons, List.flatten_singleton])) 'b' rfl
  rw [List.flatten_singleton, hk, ha, hc] at hg
  exact absurd hg (by decide)

end DufsRam.Logger
