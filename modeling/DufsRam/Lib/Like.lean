import Mathlib

/-!
# SQLite's `LIKE` with an escape character

A pattern is read into tokens: `%` is any text, `_` one character, and a character after the escape
character is that character. Letters are compared without the case of ASCII letters, as SQLite does
by default.

Results:
* `compile_quote_append`: a quoted text is read as itself.
* `accepts_lit_append`: what a pattern that starts with a text accepts.
-/

namespace Like

/-- A part of a pattern. -/
inductive Token where
  | any
  | one
  | lit (c : Char)
deriving DecidableEq

/-- The tokens of a pattern; there are none if it ends in the escape character, and it then matches
    nothing. -/
def compile (escape : Char) : List Char → Option (List Token)
  | [] => some []
  | c :: cs =>
    if c = '%' then (compile escape cs).map (.any :: ·)
    else if c = escape then
      match cs with
      | [] => none
      | c' :: cs' => (compile escape cs').map (.lit c' :: ·)
    else if c = '_' then (compile escape cs).map (.one :: ·)
    else (compile escape cs).map (.lit c :: ·)

/-- The text without the case of its ASCII letters. -/
def fold (s : List Char) : List Char := s.map Char.toLower

/-- Do the tokens match the whole text? -/
def accepts : List Token → List Char → Bool
  | [], s => s.isEmpty
  | .any :: p, s => s.tails.any (accepts p)
  | .one :: _, [] => false
  | .one :: p, _ :: s => accepts p s
  | .lit _ :: _, [] => false
  | .lit c :: p, c' :: s => decide (c.toLower = c'.toLower) && accepts p s

/-- `text LIKE pattern ESCAPE escape`. -/
def like (escape : Char) (pattern text : List Char) : Bool :=
  (compile escape pattern).any fun p => accepts p text

/-- The pattern that stands for a text: every character with a meaning is escaped. -/
def quote (escape : Char) (s : List Char) : List Char :=
  s.flatMap fun c => if c = '%' ∨ c = '_' ∨ c = escape then [escape, c] else [c]

/-! ## Case -/

theorem fold_append (s t : List Char) : fold (s ++ t) = fold s ++ fold t := List.map_append

theorem length_fold (s : List Char) : (fold s).length = s.length := List.length_map _

theorem fold_eq_nil {s : List Char} : fold s = [] ↔ s = [] := List.map_eq_nil_iff

/-! ## Quoted texts -/

theorem quote_append (esc : Char) (s t : List Char) :
    quote esc (s ++ t) = quote esc s ++ quote esc t := List.flatMap_append

theorem compile_quote_append {esc : Char} (ha : esc ≠ '%') (s p : List Char) :
    compile esc (quote esc s ++ p) = (compile esc p).map (s.map .lit ++ ·) := by
  induction s with
  | nil => simp [quote]
  | cons c s ih =>
    have hsp : quote esc (c :: s) ++ p = (if c = '%' ∨ c = '_' ∨ c = esc then [esc, c] else [c]) ++
          (quote esc s ++ p) := by
      simp [quote]
    rw [hsp]
    split_ifs with hs
    · -- the escape character is read first, so `c` stands for itself
      simp only [List.cons_append, List.nil_append]
      rw [compile, if_neg ha, if_pos rfl]
      simp only [ih, Option.map_map]
      rfl
    · obtain ⟨hc, ho, he⟩ := not_or.mp hs |>.imp_right not_or.mp
      simp only [List.cons_append, List.nil_append]
      rw [compile.eq_def]
      simp only [if_neg hc, if_neg he, if_neg ho, ih, Option.map_map]
      rfl

/-! ## What a pattern accepts -/

@[simp] theorem accepts_any (s : List Char) : accepts [.any] s = true := by
  rw [accepts, List.any_eq_true]
  exact ⟨[], (List.mem_tails _ _).mpr List.nil_suffix, rfl⟩

/-- A text at the start of a pattern is matched by a text that differs in the case of ASCII letters
    only. -/
theorem accepts_lit_append {s : List Char} {p : List Token} {t : List Char} :
    accepts (s.map .lit ++ p) t = true ↔
      ∃ t₁ t₂, t = t₁ ++ t₂ ∧ fold t₁ = fold s ∧ accepts p t₂ = true := by
  induction s generalizing t with
  | nil =>
    constructor
    · intro h
      exact ⟨[], t, rfl, rfl, h⟩
    · rintro ⟨t₁, t₂, rfl, hf, h⟩
      rw [fold_eq_nil.mp hf]
      exact h
  | cons c s ih =>
    cases t with
    | nil =>
      constructor
      · intro h
        cases h
      · rintro ⟨t₁, t₂, heq, hf, -⟩
        rw [(List.append_eq_nil_iff.mp heq.symm).1] at hf
        cases hf
    | cons c' t =>
      rw [List.map_cons, List.cons_append, accepts, Bool.and_eq_true, decide_eq_true_iff, ih]
      constructor
      · rintro ⟨hc, t₁, t₂, rfl, hf, h⟩
        refine ⟨c' :: t₁, t₂, rfl, ?_, h⟩
        show c'.toLower :: fold t₁ = c.toLower :: fold s
        rw [hc, hf]
      · rintro ⟨t₁, t₂, heq, hf, h⟩
        cases t₁ with
        | nil => cases hf
        | cons d t₁ =>
          obtain ⟨rfl, rfl⟩ := List.cons.inj heq
          obtain ⟨hd, hr⟩ := List.cons.inj hf
          exact ⟨hd.symm, t₁, t₂, rfl, hr, h⟩

/-- A quoted text followed by `%` matches what starts with the text, up to the case of ASCII
    letters. -/
theorem like_quote_any {esc : Char} (ha : esc ≠ '%') {s t : List Char} :
    like esc (quote esc s ++ ['%']) t = true ↔ ∃ t₁ t₂, t = t₁ ++ t₂ ∧ fold t₁ = fold s := by
  have hc : compile esc ['%'] = some [.any] := rfl
  rw [like, compile_quote_append ha, hc, Option.map_some, Option.any_some, accepts_lit_append]
  simp

example : like '\\' (quote '\\' ['5', '_', '%'] ++ ['%']) ['5', 'a', 'b'] = false := by decide

end Like
