import Mathlib

/-!
# Splitting texts

A text is a list of characters or of bytes. `splitOnce` cuts it at the first occurrence of a
separator, and `trimWhile` takes away what satisfies a predicate at both ends.

Results:
* `splitOnce_append`: a text is cut at the first separator.
* `of_mem_splitOn`: the parts between separators.
* `intercalate_map_splitOn`: translating the parts translates everything but the separators.
-/

namespace Text

/-- The bytes of an ASCII text. -/
def ascii (text : String) : List UInt8 := text.toList.map fun c => UInt8.ofNat c.toNat

variable {α : Type*} [DecidableEq α]

/-- `str::split_once`: the parts before and after the first separator. -/
def splitOnce (separator : α) : List α → Option (List α × List α)
  | [] => none
  | x :: text =>
    if x = separator then some ([], text)
    else (splitOnce separator text).map fun parts => (x :: parts.1, parts.2)

variable {separator : α}

theorem splitOnce_append {bef aft : List α} (h : separator ∉ bef) :
    splitOnce separator (bef ++ separator :: aft) = some (bef, aft) := by
  induction bef with
  | nil => simp [splitOnce]
  | cons x bef ih =>
    rw [List.mem_cons, not_or] at h
    rw [List.cons_append, splitOnce, if_neg (Ne.symm h.1), ih h.2, Option.map_some]

/-- What satisfies `p` is taken away at both ends. -/
def trimWhile (p : α → Bool) (text : List α) : List α :=
  ((text.dropWhile p).reverse.dropWhile p).reverse

omit [DecidableEq α] in
theorem trimWhile_cons {p : α → Bool} {x : α} {text : List α} (hx : p x = true)
    (hh : ∀ y ∈ text.head?, p y = false) (hl : ∀ y ∈ text.getLast?, p y = false) :
    trimWhile p (x :: text) = text := by
  have hf : ∀ {l : List α}, (∀ y ∈ l.head?, p y = false) → l.dropWhile p = l := by
    intro l h
    cases l with
    | nil => rfl
    | cons y l => rw [List.dropWhile_cons_of_neg]; simp [h y rfl]
  rw [trimWhile, List.dropWhile_cons_of_pos hx, hf hh, hf, List.reverse_reverse]
  rwa [List.head?_reverse]

omit [DecidableEq α] in
theorem mem_of_mem_trimWhile {p : α → Bool} {x : α} {text : List α} (h : x ∈ trimWhile p text) :
    x ∈ text := by
  rw [trimWhile, List.mem_reverse] at h
  have hr := (List.dropWhile_suffix p).subset h
  exact (List.dropWhile_suffix p).subset (List.mem_reverse.mp hr)

/-- A part between separators has no separator and nothing that the text does not have. -/
theorem of_mem_splitOn {part text : List α} (h : part ∈ text.splitOn separator) :
    separator ∉ part ∧ part ⊆ text := by
  induction text generalizing part with
  | nil =>
    rw [List.splitOn_nil, List.mem_singleton] at h
    simp [h]
  | cons x text ih =>
    rw [List.splitOn_cons_eq_if_modifyHead] at h
    split at h
    · obtain rfl | h := List.mem_cons.mp h
      · simp
      · exact ⟨(ih h).1, fun y hy => List.mem_cons_of_mem x ((ih h).2 hy)⟩
    next hx =>
    obtain ⟨fst, rest, hs⟩ := List.exists_cons_of_ne_nil (List.splitOn_ne_nil separator text)
    rw [hs] at h ih
    obtain rfl | h := List.mem_cons.mp h
    · have hf := ih List.mem_cons_self
      refine ⟨?_, List.cons_subset_cons x hf.2⟩
      rw [List.mem_cons, not_or]
      exact ⟨fun heq => hx (beq_iff_eq.mpr heq.symm), hf.1⟩
    · have hr := ih (List.mem_cons_of_mem fst h)
      exact ⟨hr.1, fun y hy => List.mem_cons_of_mem x (hr.2 hy)⟩

/-- Translating the parts translates everything but the separators. -/
theorem intercalate_map_splitOn (f : α → List α) (text : List α) :
    [separator].intercalate ((text.splitOn separator).map (List.flatMap f)) =
      text.flatMap fun x => if x = separator then [separator] else f x := by
  induction text with
  | nil => simp
  | cons x text ih =>
    obtain ⟨fst, rest, hs⟩ := List.exists_cons_of_ne_nil (List.splitOn_ne_nil separator text)
    rw [List.splitOn_cons_eq_if_modifyHead, List.flatMap_cons, ← ih]
    by_cases hx : x = separator
    · rw [if_pos (beq_iff_eq.mpr hx), if_pos hx, List.map_cons, List.intercalate_cons_of_ne_nil]
      · rfl
      · simp [hs]
    · rw [if_neg (fun h => hx (beq_iff_eq.mp h)), if_neg hx, hs]
      cases rest with
      | nil => simp
      | cons y rest => simp [List.intercalate_cons_cons]

end Text
