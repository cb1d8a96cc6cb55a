import Mathlib

/-!
# Collecting fallible results

A list is mapped by a function that may fail, and the whole fails with the first element that does.

Results:
* `mapM_eq_none_iff`, `mapM_eq_some_iff`: when it fails, and what it collects.
* `mapM_ite`: collecting under a condition.
-/

namespace Collect

variable {α β : Type*} {f : α → Option β}

/-- It fails where one of the elements does. -/
theorem mapM_eq_none_iff {l : List α} : l.mapM f = none ↔ ∃ a ∈ l, f a = none := by
  induction l with
  | nil => simp
  | cons a l ih =>
    rw [List.mapM_cons]
    cases ha : f a with
    | none => simp [ha]
    | some b =>
      cases hl : l.mapM f with
      | none => simpa [ha, hl] using ih.mp hl
      | some bs =>
        simp only [ha, Option.pure_def, Option.bind_eq_bind, Option.bind_some, reduceCtorEq,
          List.mem_cons, exists_eq_or_imp, false_or, false_iff, not_exists, not_and]
        intro a' ha' hn
        rw [ih.mpr ⟨a', ha', hn⟩] at hl
        cases hl

theorem mapM_eq_some_iff {l : List α} {l' : List β} :
    l.mapM f = some l' ↔ List.Forall₂ (fun a b => f a = some b) l l' := by
  induction l generalizing l' with
  | nil => simp [eq_comm]
  | cons a l ih =>
    rw [List.mapM_cons]
    constructor
    · intro h
      simp only [Option.pure_def, Option.bind_eq_bind, Option.bind_eq_some_iff, Option.some.injEq] at h
      obtain ⟨b, hb, bs, hbs, rfl⟩ := h
      exact .cons hb (ih.mp hbs)
    · rintro (_ | ⟨hb, hbs⟩)
      simp [hb, ih.mpr hbs]

/-- What is collected depends on the elements of the list only. -/
theorem mapM_congr {g : α → Option β} {l : List α} (h : ∀ a ∈ l, f a = g a) :
    l.mapM f = l.mapM g := by
  induction l with
  | nil => rfl
  | cons a l ih =>
    rw [List.mapM_cons, List.mapM_cons, h a List.mem_cons_self,
      ih fun a ha => h a (List.mem_cons_of_mem _ ha)]

/-- Collecting under a condition. -/
theorem mapM_ite (ok : α → Bool) (f : α → β) (xs : List α) :
    xs.mapM (fun x => if ok x then some (f x) else none) =
      if xs.all ok then some (xs.map f) else none := by
  induction xs with
  | nil => rfl
  | cons x xs ih =>
    rw [List.mapM_cons, ih]
    cases hx : ok x with
    | false => simp [hx]
    | true => cases hxs : xs.all ok <;> simp [hx, hxs]

end Collect
