import DufsRam.Lib.Text

/-!
# The range of a download

`parse_range` (`utils.rs`, lines 81-120) reads the value of a `Range` field for a file of a
given size. Its positions are read by `str::parse::<u64>`, which takes an optional plus sign
and digits, and fails on numbers of 64 bits or more.

**Deviation from RFC 9110.** A position of the RFC is a string of digits of any length. The
parser of the code also takes a plus sign, so `bytes=+0-5` is satisfied, and it fails on a long
last position, so `bytes=0-99999999999999999999` is refused where the RFC clamps it to the size.

Results:
* `parsePositions_satisfiable_iff`: which positions the code satisfies, and how.
* `parseRange_rfc9110_iff`: when the code agrees with the RFC.
-/

namespace DufsRam.Download

open Text

/-! ## Model -/

/-- `ParsedRange` (`utils.rs`, lines 75-79). -/
inductive ParsedRange
  | ignore
  | satisfiable (start stop : ℕ)
  | unsatisfiable
deriving DecidableEq

/-- The value of a string of digits. -/
def decimal (digits : List Char) : ℕ :=
  digits.foldl (fun value digit => 10 * value + (digit.toNat - '0'.toNat)) 0

/-- A string of digits that is not empty. -/
def isNumeral (text : List Char) : Bool :=
  text ≠ [] && text.all Char.isDigit

/-- The digits of a `u64`. -/
def parseDigits (digits : List Char) : Option ℕ :=
  if isNumeral digits ∧ decimal digits < 2 ^ 64 then some (decimal digits) else none

/-- `str::parse::<u64>`: an optional plus sign and digits. -/
def parseU64 : List Char → Option ℕ
  | '+' :: digits => parseDigits digits
  | digits => parseDigits digits

/-- `char::is_whitespace`. -/
def isWhitespace (c : Char) : Bool :=
  let code := c.toNat
  (9 ≤ code && code ≤ 13) || code = 0x20 || code = 0x85 || code = 0xA0 || code = 0x1680 ||
    (0x2000 ≤ code && code ≤ 0x200A) || code = 0x2028 || code = 0x2029 || code = 0x202F ||
    code = 0x205F || code = 0x3000

/-- `str::trim`. -/
def trim (text : List Char) : List Char :=
  trimWhile isWhitespace text

/-- `str::eq_ignore_ascii_case`. -/
def eqIgnoreAsciiCase (left right : List Char) : Bool :=
  left.map Char.toLower = right.map Char.toLower

/-- The positions of a single range (`utils.rs`, lines 94-119). -/
def parsePositions (start stop : List Char) (size : ℕ) : ParsedRange :=
  if start = [] then
    match parseU64 stop with
    | none => .unsatisfiable
    | some length =>
      if length = 0 ∨ size = 0 then .unsatisfiable
      else .satisfiable (size - min length size) (size - 1)
  else
    match parseU64 start with
    | none => .unsatisfiable
    | some first =>
      if size ≤ first then .unsatisfiable
      else if stop = [] then .satisfiable first (size - 1)
      else
        match parseU64 stop with
        | none => .unsatisfiable
        | some last =>
          if last < first then .unsatisfiable else .satisfiable first (min last (size - 1))

/-- `parse_range` (`utils.rs`, lines 81-120). -/
def parseRange (range : List Char) (size : ℕ) : ParsedRange :=
  match splitOnce '=' range with
  | none => .unsatisfiable
  | some (unit, range) =>
    if ¬ eqIgnoreAsciiCase unit "bytes".toList then .ignore
    else if ',' ∈ range then .unsatisfiable
    else
      match splitOnce '-' (trim range) with
      | none => .unsatisfiable
      | some (start, stop) => parsePositions start stop size

/-! ## The ranges of RFC 9110 -/

/-- The bytes that the positions `first` and `last` of a single range select in a file of the
    given size (RFC 9110, section 14.1.2): positions are digits only, of any length. -/
def rfcRange (first last : List Char) (size : ℕ) : Option (ℕ × ℕ) :=
  if first = [] then
    if isNumeral last ∧ 0 < decimal last ∧ 0 < size then
      some (size - min (decimal last) size, size - 1)
    else none
  else if last = [] then
    if isNumeral first ∧ decimal first < size then some (decimal first, size - 1) else none
  else if isNumeral first ∧ isNumeral last ∧ decimal first ≤ decimal last ∧ decimal first < size then
    some (decimal first, min (decimal last) (size - 1))
  else none

/-- A position without the plus sign that `parse::<u64>` takes. -/
def unsign : List Char → List Char
  | '+' :: digit :: digits => digit :: digits
  | text => text

/-- One of the positions has a plus sign before its digits. -/
def Signed (first last : List Char) : Prop :=
  unsign first ≠ first ∨ unsign last ≠ last

instance (first last : List Char) : Decidable (Signed first last) :=
  inferInstanceAs (Decidable (_ ∨ _))

/-! ## What the code satisfies -/

theorem isNumeral_plus (text : List Char) : isNumeral ('+' :: text) = false := by
  rfl

theorem unsign_of_ne {c : Char} (h : c ≠ '+') (text : List Char) : unsign (c :: text) = c :: text := by
  unfold unsign
  split
  · next heq => exact absurd (List.cons.inj heq).1 h
  · rfl

/-- The positions are read as if the plus sign were not there. -/
theorem parseU64_eq (text : List Char) : parseU64 text = parseDigits (unsign text) := by
  unfold parseU64
  split
  · next ds =>
    cases ds with
    | nil => rfl
    | cons digit ds => rfl
  · next hp =>
    cases text with
    | nil => rfl
    | cons c text =>
      have hc : c ≠ '+' := by
        rintro rfl
        exact hp text rfl
      rw [unsign_of_ne hc]

@[simp] theorem unsign_eq_nil_iff {text : List Char} : unsign text = [] ↔ text = [] := by
  unfold unsign
  split <;> simp

/-- A position with a plus sign is not a position of the RFC. -/
theorem isNumeral_of_signed {text : List Char} (h : unsign text ≠ text) :
    isNumeral text = false := by
  cases text with
  | nil => rfl
  | cons c text =>
    by_cases hc : c = '+'
    · rw [hc, isNumeral_plus]
    · exact absurd (unsign_of_ne hc text) h

theorem parseU64_eq_some_iff {text : List Char} {value : ℕ} : parseU64 text = some value ↔
      isNumeral (unsign text) ∧ decimal (unsign text) < 2 ^ 64 ∧ decimal (unsign text) = value := by
  rw [parseU64_eq, parseDigits]
  split
  · next h => rw [Option.some.injEq]; exact ⟨fun heq => ⟨h.1, h.2, heq⟩, fun h => h.2.2⟩
  · next h => exact ⟨fun heq => (nomatch heq), fun h' => absurd ⟨h'.1, h'.2.1⟩ h⟩

theorem not_isNumeral_of_parseU64 {text : List Char} (h : parseU64 text = none)
    (hlt : decimal (unsign text) < 2 ^ 64) : isNumeral (unsign text) = false := by
  by_contra hn
  rw [Bool.not_eq_false] at hn
  rw [parseU64_eq_some_iff.mpr ⟨hn, hlt, rfl⟩] at h
  cases h

/-- The code satisfies the range of the RFC without plus signs, if the last position is a
    `u64`. -/
theorem parsePositions_satisfiable_iff {x last : List Char} {size : ℕ} (hsz : size < 2 ^ 64)
    (st stop : ℕ) :
    parsePositions x last size = .satisfiable st stop ↔
      rfcRange (unsign x) (unsign last) size = some (st, stop) ∧
        decimal (unsign last) < 2 ^ 64 := by
  unfold parsePositions rfcRange
  simp only [unsign_eq_nil_iff]
  by_cases hf : x = []
  · rw [if_pos hf, if_pos hf]
    split
    · next hnn =>
      refine ⟨fun h => (nomatch h), fun ⟨hr, hlt⟩ => ?_⟩
      rw [not_isNumeral_of_parseU64 hnn hlt] at hr
      simp at hr
    · next len hln =>
      obtain ⟨hn, hlt, rfl⟩ := parseU64_eq_some_iff.mp hln
      split_ifs <;> grind
  · rw [if_neg hf, if_neg hf]
    split
    · next hnn =>
      -- A first position of 64 bits or more is beyond the size in the RFC as well.
      refine ⟨fun h => (nomatch h), fun ⟨hr, hlt⟩ => ?_⟩
      have hby : isNumeral (unsign x) = true → size ≤ decimal (unsign x) := by
        intro hn
        by_contra hs
        rw [not_isNumeral_of_parseU64 hnn (by omega)] at hn
        cases hn
      split_ifs at hr <;> grind
    · next a ha =>
      obtain ⟨hn, hlt, rfl⟩ := parseU64_eq_some_iff.mp ha
      by_cases hl : last = []
      · have hz : decimal (unsign []) < 2 ^ 64 := by decide
        split_ifs <;> grind
      rw [if_neg hl, if_neg hl]
      by_cases hs : size ≤ decimal (unsign x)
      · rw [if_pos hs]
        refine ⟨fun h => (nomatch h), fun ⟨hr, _⟩ => ?_⟩
        rw [if_neg (by omega)] at hr
        cases hr
      · rw [if_neg hs]
        split
        · next hnn =>
          refine ⟨fun h => (nomatch h), fun ⟨hr, hlt⟩ => ?_⟩
          rw [not_isNumeral_of_parseU64 hnn hlt] at hr
          simp at hr
        · next b hb =>
          obtain ⟨hn', hlt', rfl⟩ := parseU64_eq_some_iff.mp hb
          split_ifs <;> grind

/-- A range of the RFC has no plus sign. -/
theorem rfcRange_of_signed {x last : List Char} (h : Signed x last) (size : ℕ) :
    rfcRange x last size = none := by
  have hnm : (x ≠ [] ∧ isNumeral x = false) ∨ (last ≠ [] ∧ isNumeral last = false) := by
    rcases h with h | h
    · exact .inl ⟨fun hn => h (by rw [hn]; rfl), isNumeral_of_signed h⟩
    · exact .inr ⟨fun hn => h (by rw [hn]; rfl), isNumeral_of_signed h⟩
  unfold rfcRange
  split_ifs <;> grind

/-- The value of a field with one range, after its unit. -/
theorem parseRange_single {unit body x last : List Char}
    (hu : eqIgnoreAsciiCase unit "bytes".toList) (hs : ',' ∉ body)
    (hsp : trim body = x ++ '-' :: last) (hf : '-' ∉ x) (size : ℕ) :
    parseRange (unit ++ '=' :: body) size = parsePositions x last size := by
  have he : '=' ∉ unit := by
    intro hm
    have hl := List.mem_map_of_mem (f := Char.toLower) hm
    rw [of_decide_eq_true hu] at hl
    revert hl
    decide
  rw [parseRange, splitOnce_append he]
  simp only [hu, not_true_eq_false, if_false, hs, hsp, splitOnce_append hf]

/-- The code satisfies the ranges that the RFC satisfies, with the same bytes, exactly in these
    cases: the specifier without its plus signs denotes no range of the file, or it has a plus
    sign if and only if its last position is `2 ^ 64` or more. -/
theorem parseRange_rfc9110_iff (unit body first last : List Char) (size : ℕ) (hsize : size < 2 ^ 64)
    (hunit : eqIgnoreAsciiCase unit "bytes".toList) (hsingle : ',' ∉ body)
    (hspecifier : trim body = first ++ '-' :: last) (hfirst : '-' ∉ first) :
    (∀ start stop, parseRange (unit ++ '=' :: body) size = .satisfiable start stop ↔
        rfcRange first last size = some (start, stop)) ↔
      rfcRange (unsign first) (unsign last) size = none ∨
        (Signed first last ↔ 2 ^ 64 ≤ decimal (unsign last)) := by
  rw [parseRange_single hunit hsingle hspecifier hfirst]
  simp only [parsePositions_satisfiable_iff hsize]
  by_cases hs : Signed first last
  · rw [rfcRange_of_signed hs]
    cases hr : rfcRange (unsign first) (unsign last) size with
    | none => simp
    | some bounds =>
      simp only [hs, true_iff, reduceCtorEq, iff_false, false_or, not_and, Nat.not_lt,
        Option.some.injEq]
      exact ⟨fun h => h bounds.1 bounds.2 rfl, fun h _ _ _ => h⟩
  · obtain ⟨hf', hl'⟩ := not_or.mp hs
    rw [not_not.mp hf', not_not.mp hl']
    cases hr : rfcRange first last size with
    | none => simp
    | some bounds =>
      simp only [hs, false_iff, Nat.not_le, reduceCtorEq, false_or, and_iff_left_iff_imp,
        Option.some.injEq]
      exact ⟨fun h => h bounds.1 bounds.2 rfl, fun h _ _ _ => h⟩

/-- A range with plain positions is satisfied as the RFC says. -/
theorem parseRange_rfc9110_plain : parseRange "bytes=2-99".toList 10 = .satisfiable 2 9 :=
  ((parseRange_rfc9110_iff "bytes".toList "2-99".toList "2".toList "99".toList 10 (by decide)
    (by decide) (by decide) (by decide) (by decide)).mpr (.inr (by decide)) 2 9).mpr (by decide)

/-- The two deviations: a long last position is refused instead of clamped, and a position with
    a plus sign is satisfied. -/
theorem parseRange_deviates : (rfcRange "0".toList "99999999999999999999".toList 10 = some (0, 9) ∧
        parseRange "bytes=0-99999999999999999999".toList 10 = .unsatisfiable) ∧
      (rfcRange [] "99999999999999999999".toList 10 = some (0, 9) ∧
        parseRange "bytes=-99999999999999999999".toList 10 = .unsatisfiable) ∧
      rfcRange "+0".toList "5".toList 10 = none ∧
        parseRange "bytes=+0-5".toList 10 = .satisfiable 0 5 := by
  decide

end DufsRam.Download
