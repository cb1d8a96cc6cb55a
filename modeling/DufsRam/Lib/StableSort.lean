import Mathlib

/-!
# Stable sorting by merging runs

Positions are sorted instead of values: `Precedes cmp values i j` orders the positions by their
values, and equal values by their positions. Under a total preorder `cmp` this is a strict total
order, so there is exactly one way to list all positions in order. That list is the stable sort.

`Runs` describes a list of positions that falls into sorted runs of one width, each before the
next in the original order; `mergeAdjacent` merges neighbouring runs and doubles the width.

Results:
* `Precedes.trans`, `Precedes.asymm`: the order of positions.
* `Runs.merged`: one pass doubles the width of the runs.
* `IsStableSort.unique`: there is one stable sort.
* `IsStableSort.pairwise_lt`: it is strictly ordered where no two values are equal.
-/

open Std

variable {ι α : Type*}

/-! ## The order of positions -/

/-- Position `i` goes before position `j`: it holds the smaller value, or an equal one that
    stands first. -/
def Precedes [LT ι] (cmp : α → α → Ordering) (values : ι → α) (i j : ι) : Prop :=
  cmp (values i) (values j) = .lt ∨ cmp (values i) (values j) = .eq ∧ i < j

section order

variable {cmp : α → α → Ordering} [TransCmp cmp] {values : ι → α}

theorem Precedes.trans [Preorder ι] {i j k : ι} (hij : Precedes cmp values i j)
    (hjk : Precedes cmp values j k) : Precedes cmp values i k := by
  rcases hij with hij | ⟨hij, hlt⟩ <;> rcases hjk with hjk | ⟨hjk, hlt'⟩
  · exact .inl (TransCmp.lt_trans hij hjk)
  · exact .inl (TransCmp.lt_of_lt_of_eq hij hjk)
  · exact .inl (TransCmp.lt_of_eq_of_lt hij hjk)
  · exact .inr ⟨TransCmp.eq_trans hij hjk, hlt.trans hlt'⟩

theorem Precedes.asymm [Preorder ι] {i j : ι} (hij : Precedes cmp values i j) :
    ¬ Precedes cmp values j i := by
  intro hji
  rcases hij.trans hji with h | ⟨-, h⟩
  · have hs : cmp (values i) (values i) = .eq := ReflCmp.compare_self
    rw [hs] at h
    cases h
  · exact lt_irrefl i h

omit [TransCmp cmp] in
/-- A position that stands first and does not hold a greater value goes first. -/
theorem Precedes.of_isLE [LT ι] {i j : ι} (hlt : i < j) (h : cmp (values i) (values j) ≠ .gt) :
    Precedes cmp values i j := by
  cases hc : cmp (values i) (values j) with
  | lt => exact .inl hc
  | eq => exact .inr ⟨hc, hlt⟩
  | gt => exact absurd hc h

theorem Precedes.of_gt [LT ι] {i j : ι} (h : cmp (values i) (values j) = .gt) :
    Precedes cmp values j i :=
  .inl (OrientedCmp.gt_iff_lt.mp h)

end order

/-! ## Merging runs -/

section merging

variable {R : ι → ι → Prop} {le : ι → ι → Bool}

/-- Two ordered lists merge into an ordered list, if `le` decides the order across them. -/
theorem pairwise_merge_of_cross (ht : ∀ a b c, R a b → R b c → R a c) {left right : List ι}
    (hl : left.Pairwise R) (hr : right.Pairwise R)
    (hcr : ∀ a ∈ left, ∀ b ∈ right, (le a b → R a b) ∧ (¬ le a b → R b a)) :
    (left.merge right le).Pairwise R := by
  induction left, right using List.merge.induct le with
  | case1 right => simpa using hr
  | case2 left hne => simpa using hl
  | case3 a left b right hle ih =>
    rw [List.cons_merge_cons, if_pos hle, List.pairwise_cons]
    have hab := (hcr a List.mem_cons_self b List.mem_cons_self).1 hle
    rw [List.pairwise_cons] at hl hr
    refine ⟨?_, ih hl.2 (List.pairwise_cons.mpr hr) ?_⟩
    · intro c hc
      rw [List.mem_merge, List.mem_cons] at hc
      rcases hc with hc | rfl | hc
      · exact hl.1 c hc
      · exact hab
      · exact ht a b c hab (hr.1 c hc)
    · exact fun c hc d hd => hcr c (List.mem_cons_of_mem a hc) d hd
  | case4 a left b right hle ih =>
    rw [List.cons_merge_cons, if_neg hle, List.pairwise_cons]
    have hba := (hcr a List.mem_cons_self b List.mem_cons_self).2 hle
    rw [List.pairwise_cons] at hl hr
    refine ⟨?_, ih (List.pairwise_cons.mpr hl) hr.2 ?_⟩
    · intro c hc
      rw [List.mem_merge, List.mem_cons] at hc
      rcases hc with (rfl | hc) | hc
      · exact hba
      · exact ht b a c hba (hl.1 c hc)
      · exact hr.1 c hc
    · exact fun c hc d hd => hcr c hc d (List.mem_cons_of_mem b hd)

/-- Merge the first run of the given width with the second, the third with the fourth, and so
    on. -/
def mergeAdjacent (le : ι → ι → Bool) (width : ℕ) (hwidth : 0 < width) (runs : List ι) : List ι :=
  if runs = [] then []
  else (runs.take width).merge ((runs.drop width).take width) le ++
    mergeAdjacent le width hwidth (runs.drop (2 * width))
termination_by runs.length
decreasing_by
  have := List.length_pos_of_ne_nil ‹_›
  simp only [List.length_drop]
  omega

theorem mergeAdjacent_perm (w : ℕ) (hw : 0 < w) (runs : List ι) :
    (mergeAdjacent le w hw runs).Perm runs := by
  fun_induction mergeAdjacent le w hw runs with
  | case1 => exact .refl _
  | case2 runs hne ih =>
    have hs : runs.take w ++ (runs.drop w).take w ++ runs.drop (2 * w) = runs := by
      rw [List.append_assoc, two_mul, ← List.drop_drop, List.take_append_drop,
        List.take_append_drop]
    exact ((List.merge_perm_append le).append ih).trans (.of_eq hs)

/-- A list that falls into runs of the given width, the last perhaps shorter: each run is in
    order, and every element of a run stands before those of the later runs. -/
inductive Runs [LT ι] (R : ι → ι → Prop) (width : ℕ) : List ι → Prop
  | last {run : List ι} (hlength : run.length ≤ width) (hrun : run.Pairwise R) : Runs R width run
  | more {run rest : List ι} (hlength : run.length = width) (hrun : run.Pairwise R)
      (hbefore : ∀ a ∈ run, ∀ b ∈ rest, a < b) (hrest : Runs R width rest) :
      Runs R width (run ++ rest)

theorem mergeAdjacent_last {w : ℕ} (hw : 0 < w) {run : List ι}
    (hl : run.length ≤ w) : mergeAdjacent le w hw run = run := by
  rw [mergeAdjacent]
  split
  · next hn => exact hn.symm
  · rw [List.take_of_length_le hl, List.drop_of_length_le hl,
      List.drop_of_length_le (by omega), mergeAdjacent]
    simp

theorem mergeAdjacent_pair {w : ℕ} (hw : 0 < w) {left right : List ι}
    (hl : left.length = w) (hr : right.length ≤ w) :
    mergeAdjacent le w hw (left ++ right) = left.merge right le := by
  have hne : left ++ right ≠ [] :=
    List.append_ne_nil_of_left_ne_nil (List.ne_nil_of_length_pos (by omega)) _
  rw [mergeAdjacent, if_neg hne, List.take_left' hl, List.drop_left' hl,
    List.take_of_length_le hr, List.drop_of_length_le (by simp; omega), mergeAdjacent]
  simp

theorem mergeAdjacent_more {w : ℕ} (hw : 0 < w) {left right rest : List ι}
    (hl : left.length = w) (hr : right.length = w) :
    mergeAdjacent le w hw (left ++ (right ++ rest)) =
      left.merge right le ++ mergeAdjacent le w hw rest := by
  have hne : left ++ (right ++ rest) ≠ [] :=
    List.append_ne_nil_of_left_ne_nil (List.ne_nil_of_length_pos (by omega)) _
  rw [mergeAdjacent, if_neg hne, List.take_left' hl, List.drop_left' hl,
    List.take_left' hr, two_mul, ← List.drop_drop, List.drop_left' hl,
    List.drop_left' hr]

/-- One pass doubles the width of the runs, if `le` decides the order of an element and a
    later one. -/
theorem Runs.merged [LT ι] (ht : ∀ a b c, R a b → R b c → R a c)
    (hle : ∀ a b, a < b → (le a b → R a b) ∧ (¬ le a b → R b a)) {w : ℕ} (hw : 0 < w)
    {runs : List ι} (h : Runs R w runs) :
    Runs R (2 * w) (mergeAdjacent le w hw runs) := by
  induction hs : runs.length using Nat.strong_induction_on generalizing runs with
  | _ size ih =>
    -- The runs are taken two by two: the second may be the last, or missing.
    cases h with
    | last hl hr =>
      rw [mergeAdjacent_last hw hl]
      exact .last (by omega) hr
    | @more left rest hlf hr hbf hrs =>
      have hc : ∀ a ∈ left, ∀ b ∈ rest, (le a b → R a b) ∧ (¬ le a b → R b a) :=
        fun a ha b hb => hle a b (hbf a ha b hb)
      cases hrs with
      | last hl hr' =>
        rw [mergeAdjacent_pair hw hlf hl]
        refine .last ?_ (pairwise_merge_of_cross ht hr hr' hc)
        rw [List.length_merge]
        omega
      | @more right rest hrg hr' hbf' hrs' =>
        rw [mergeAdjacent_more hw hlf hrg]
        simp only [List.length_append] at hs
        refine .more ?_ (pairwise_merge_of_cross ht hr hr' ?_) ?_
          (ih rest.length (by omega) hrs' rfl)
        · rw [List.length_merge]
          omega
        · exact fun a ha b hb => hc a ha b (List.mem_append_left rest hb)
        intro a ha b hb
        have hb' : b ∈ rest := (mergeAdjacent_perm w hw rest).mem_iff.mp hb
        rcases List.mem_merge.mp ha with ha | ha
        · exact hbf a ha b (List.mem_append_right right hb')
        · exact hbf' a ha b hb'

/-- A list in its original order falls into runs of width one. -/
theorem Runs.ofSorted [LT ι] {xs : List ι} (h : xs.Pairwise (· < ·)) : Runs R 1 xs := by
  induction xs with
  | nil => exact .last (Nat.zero_le 1) .nil
  | cons x xs ih =>
    rw [List.pairwise_cons] at h
    have ho : [x].length = 1 := rfl
    refine .more ho (List.pairwise_singleton R x) ?_ (ih h.2)
    intro a ha b hb
    rw [List.mem_singleton] at ha
    rw [ha]
    exact h.1 b hb

/-- Runs that are as wide as the list are one run. -/
theorem Runs.pairwise [LT ι] {w : ℕ} {xs : List ι} (h : Runs R w xs)
    (hw : xs.length ≤ w) : xs.Pairwise R := by
  cases h with
  | last _ hr => exact hr
  | @more run rest hl hr _ _ =>
    have hrs : rest = [] := by
      rw [List.length_append] at hw
      exact List.eq_nil_of_length_eq_zero (by omega)
    rw [hrs, List.append_nil]
    exact hr

end merging

/-! ## The stable sort -/

/-- `result` holds the values of `values` in order, equal ones in their original order. -/
def IsStableSort {n : ℕ} (cmp : α → α → Ordering) (values result : Fin n → α) : Prop :=
  ∃ order : Equiv.Perm (Fin n), result = values ∘ order ∧
    ∀ i j, i < j → Precedes cmp values (order i) (order j)

/-- There is only one stable sort. -/
theorem IsStableSort.unique {n : ℕ} {cmp : α → α → Ordering} [TransCmp cmp]
    {values r result' : Fin n → α} (h : IsStableSort cmp values r)
    (h' : IsStableSort cmp values result') : r = result' := by
  obtain ⟨order, rfl, hs⟩ := h
  obtain ⟨order', rfl, hs'⟩ := h'
  have hp : (List.ofFn order).Perm (List.ofFn order') := by
    have ha (σ : Equiv.Perm (Fin n)) : (List.ofFn σ).Perm (List.ofFn id) :=
      σ.ofFn_comp_perm id
    exact (ha order).trans (ha order').symm
  have hl : List.ofFn order = List.ofFn order' := by
    refine List.Perm.eq_of_pairwise ?_ (List.pairwise_ofFn.mpr fun i j => hs i j)
      (List.pairwise_ofFn.mpr fun i j => hs' i j) hp
    exact fun i j _ _ hij hji => absurd hji hij.asymm
  rw [List.ofFn_inj.mp hl]

theorem IsStableSort.perm {n : ℕ} {cmp : α → α → Ordering} {values r : Fin n → α}
    (h : IsStableSort cmp values r) : (List.ofFn r).Perm (List.ofFn values) := by
  obtain ⟨order, rfl, -⟩ := h
  exact order.ofFn_comp_perm values

/-- If no two positions hold equal values, the stable sort is strictly ordered. -/
theorem IsStableSort.pairwise_lt {n : ℕ} {cmp : α → α → Ordering} {values r : Fin n → α}
    (h : IsStableSort cmp values r)
    (hs : ∀ i j, cmp (values i) (values j) = .eq → i = j) :
    (List.ofFn r).Pairwise fun a b => cmp a b = .lt := by
  obtain ⟨order, rfl, hsr⟩ := h
  rw [List.pairwise_ofFn]
  intro i j hij
  rcases hsr i j hij with hlt | ⟨heq, hlt⟩
  · exact hlt
  · exact absurd (hs _ _ heq) hlt.ne
