import Mathlib

/-!
# Applying a permutation in place

Every position `i` of a slice has a place `next i` at which its element belongs. Swapping the
element of a position with the one at its place, and the two entries of `next` with them, puts
one more element where it belongs and moves none that is already there.

Results:
* `Routed.swap`: a swap keeps where every element belongs.
* `settled_swap`, `unsettled_swap_lt`: elements at their place stay there, and there are more
  of them after each swap.
* `Routed.eq_target`: when all are at their place, the slice is the target.
-/

variable {ι α : Type*} [DecidableEq ι]

/-- The elements of `values` belong at the places `next` of `target`. -/
structure Routed (target values : ι → α) (next : ι → ι) : Prop where
  injective : Function.Injective next
  arrives : target ∘ next = values

variable {target values : ι → α} {next : ι → ι}

theorem Routed.swap (h : Routed target values next) (i j : ι) :
    Routed target (values ∘ Equiv.swap i j) (next ∘ Equiv.swap i j) := by
  refine ⟨h.injective.comp (Equiv.injective _), ?_⟩
  rw [← Function.comp_assoc, h.arrives]

omit [DecidableEq ι] in
theorem Routed.eq_target (h : Routed target values next) (hs : ∀ i, next i = i) :
    values = target := by
  rw [← h.arrives, show next = id from funext hs, Function.comp_id]

/-- An element at its place is not moved by the swap of another position with its place. -/
theorem settled_swap (hi : Function.Injective next) {position i : ι}
    (hm : next position ≠ position) (hs : next i = i) :
    (next ∘ Equiv.swap position (next position)) i = i := by
  have hp : i ≠ position := by
    rintro rfl
    exact hm hs
  have hd : i ≠ next position := by
    intro h
    exact hp (hi (hs.trans h))
  rw [Function.comp_apply, Equiv.swap_apply_of_ne_of_ne hp hd, hs]

variable [Fintype ι]

/-- The number of positions whose element is not at its place. -/
def unsettled (next : ι → ι) : ℕ :=
  (Finset.univ.filter fun i => next i ≠ i).card

theorem unsettled_le (next : ι → ι) : unsettled next ≤ Fintype.card ι :=
  Finset.card_filter_le _ _

theorem unsettled_swap_lt (hin : Function.Injective next) {pos : ι} (hm : next pos ≠ pos) :
    unsettled (next ∘ Equiv.swap pos (next pos)) < unsettled next := by
  refine Finset.card_lt_card (Finset.ssubset_iff_of_subset ?_ |>.mpr ⟨next pos, ?_, ?_⟩)
  · intro i hi
    rw [Finset.mem_filter] at hi ⊢
    exact ⟨hi.1, fun hs => hi.2 (settled_swap hin hm hs)⟩
  · rw [Finset.mem_filter]
    exact ⟨Finset.mem_univ _, fun h => hm (hin h)⟩
  · simp
