import DufsRam.Lib.Effect
import DufsRam.Lib.InPlace
import DufsRam.Lib.Metered
import DufsRam.Lib.StableSort
import Mathlib

/-!
# The interruptible sort of the listing

`stable_sort_by_interruptible` (`listing.rs`, lines 1121-1231) sorts a slice by a comparison,
and asks the callback `active` after every bounded piece of work whether to go on. It merges
lists of positions from the bottom up, inverts the resulting order, and then moves the elements
along the cycles of that permutation by swaps.

A slice of length `n` is a function on `Fin n`. The callback is the sequence of its answers, one
per call. The state keeps, beside the slice and the work counter, a log of the checks, element
comparisons and element swaps made so far, newest first. The saturating additions and products
of the source act on positions in a slice, which has at most `isize::MAX` elements, so they are
exact. The `while` loop over a cycle gets an amount of fuel; `outOfFuel` is never the outcome
when the fuel is at least the length of the slice.

Results:
* `mergePasses_triple`: the merge phase leaves the order of the stable sort.
* `applyCycles_triple`: the swaps move every element to its place, and never lose one.
* `stableSortByInterruptible_sorts`: the outcome of every run.
-/

namespace DufsRam.Listing

open Effect
open Std (TransCmp)

/-! ## Model -/

/-- `InterruptibleSortFailure` (`listing.rs`, lines 1116-1119). -/
inductive InterruptibleSortFailure
  | interrupted
  | allocation
deriving DecidableEq

/-- Why a run of the model stops: a failure of the source, or the fuel of a loop. -/
inductive Stop
  | failed (failure : InterruptibleSortFailure)
  | outOfFuel
deriving DecidableEq

/-- What the log records. -/
inductive SortOp
  | check
  | compare
  | swap
deriving DecidableEq

/-- The slice, `work_since_check`, the number of calls of `active`, and the log. -/
structure SortState (n : ℕ) (α : Type) where
  values : Fin n → α
  workSinceCheck : ℕ
  checks : ℕ
  log : List SortOp

/-- A part of the sort. -/
abbrev Sorting (n : ℕ) (α β : Type) := Effect Stop (SortState n α) β

section model

variable {n : ℕ} {α : Type} (compare : α → α → Ordering) (active : ℕ → Bool)

/-- `INTERRUPT_CHECK_INTERVAL` (`listing.rs`, line 1130). -/
def interruptCheckInterval : ℕ := 256

/-- A call of `active`. -/
def callActive : Sorting n α Bool := do
  let state ← get
  modify fun state => { state with checks := state.checks + 1, log := .check :: state.log }
  return active state.checks

/-- A call of `compare` on the values at two positions. -/
def compareAt (i j : Fin n) : Sorting n α Ordering := do
  let state ← get
  modify fun state => { state with log := .compare :: state.log }
  return compare (state.values i) (state.values j)

/-- `values.swap(i, j)`. -/
def swapValues (i j : Fin n) : Sorting n α Unit :=
  modify fun state =>
    { state with values := state.values ∘ Equiv.swap i j, log := .swap :: state.log }

/-- The counting of one piece of work, which every loop begins with (`listing.rs`, lines
    1149-1155, 1173-1179, 1204-1210 and 1215-1221). -/
def countWork : Sorting n α Unit := do
  modify fun state => { state with workSinceCheck := state.workSinceCheck + 1 }
  let state ← get
  if interruptCheckInterval ≤ state.workSinceCheck then
    let goOn ← callActive active
    if goOn then
      modify fun state => { state with workSinceCheck := 0 }
    else
      throw (.failed .interrupted)
  else
    pure ()

/-- The loop that lists the positions (`listing.rs`, lines 1148-1157). -/
def listIndices : List (Fin n) → List (Fin n) → Sorting n α (List (Fin n))
  | [], current => pure current
  | index :: rest, current => do
    countWork active
    listIndices rest (current ++ [index])

/-- The merge of two runs (`listing.rs`, lines 1172-1191): what is left of the two runs, and
    the merged positions so far. -/
def mergeRuns : List (Fin n) → List (Fin n) → List (Fin n) → Sorting n α (List (Fin n))
  | [], [], next => pure next
  | i :: left, [], next => do
    countWork active
    mergeRuns left [] (next ++ [i])
  | [], j :: right, next => do
    countWork active
    mergeRuns [] right (next ++ [j])
  | i :: left, j :: right, next => do
    countWork active
    let ordering ← compareAt compare i j
    if ordering ≠ .gt then mergeRuns left (j :: right) (next ++ [i])
    else mergeRuns (i :: left) right (next ++ [j])
termination_by left right => left.length + right.length

/-- One pass over the runs (`listing.rs`, lines 1166-1193), from `start` on. -/
def mergePass (width : ℕ) (hwidth : 0 < width) (current next : List (Fin n)) :
    Sorting n α (List (Fin n)) :=
  if current = [] then pure next
  else do
    let next ← mergeRuns compare active (current.take width) ((current.drop width).take width) next
    mergePass width hwidth (current.drop (2 * width)) next
termination_by current.length
decreasing_by
  have := List.length_pos_of_ne_nil ‹_›
  simp only [List.length_drop]
  omega

/-- The passes with doubling width (`listing.rs`, lines 1162-1196). -/
def mergePasses (width : ℕ) (hwidth : 0 < width) (current : List (Fin n)) :
    Sorting n α (List (Fin n)) :=
  if width < n then do
    let next ← mergePass compare active width hwidth current []
    mergePasses (2 * width) (by omega) next
  else pure current
termination_by n - width

/-- The inversion of the order (`listing.rs`, lines 1203-1212), from `newPosition` on. -/
def invertOrder [NeZero n] : List (Fin n) → ℕ → (Fin n → Fin n) → Sorting n α (Fin n → Fin n)
  | [], _, next => pure next
  | oldPosition :: current, newPosition, next => do
    countWork active
    invertOrder current (newPosition + 1)
      (Function.update next oldPosition (Fin.ofNat n newPosition))

/-- The cycle through one position (`listing.rs`, lines 1214-1225). -/
def applyCycle : ℕ → Fin n → (Fin n → Fin n) → Sorting n α (Fin n → Fin n)
  | fuel, position, next =>
    if next position ≠ position then
      match fuel with
      | 0 => throw .outOfFuel
      | fuel + 1 => do
        countWork active
        let destination := next position
        swapValues position destination
        applyCycle fuel position (next ∘ Equiv.swap position destination)
    else pure next

/-- The cycles through a list of positions (`listing.rs`, lines 1213-1226). -/
def applyCycles (fuel : ℕ) : List (Fin n) → (Fin n → Fin n) → Sorting n α Unit
  | [], _ => pure ()
  | position :: rest, next => do
    let next ← applyCycle active fuel position next
    applyCycles fuel rest next

/-- A call of `active` that stops the sort if it is answered by `false` (`listing.rs`, lines
    1132-1134 and 1227-1229). -/
def checkActive : Sorting n α Unit := do
  let goOn ← callActive active
  if goOn then pure () else throw (.failed .interrupted)

/-- `try_reserve_exact`: whether there is memory for the positions. -/
def tryReserve (reserved : Bool) : Sorting n α Unit :=
  if reserved then pure () else throw (.failed .allocation)

/-- `stable_sort_by_interruptible` (`listing.rs`, lines 1132-1230). `reserved` says whether
    each of the two allocations succeeds. -/
def stableSort (fuel : ℕ) (reserved : Bool × Bool) : Sorting n α Unit := do
  checkActive active
  if h : n < 2 then pure ()
  else
    have : NeZero n := ⟨by omega⟩
    tryReserve reserved.1
    let current ← listIndices active (List.finRange n) []
    tryReserve reserved.2
    let current ← mergePasses compare active 1 Nat.one_pos current
    let next ← invertOrder active current 0 fun _ => 0
    applyCycles active fuel (List.finRange n) next
    checkActive active

/-- The state at the call. -/
def SortState.init (values : Fin n → α) : SortState n α :=
  ⟨values, 0, 0, []⟩

/-- A whole call on a slice: the answer and the state that it leaves. -/
def stableSortByInterruptible (fuel : ℕ) (reserved : Bool × Bool) (values : Fin n → α) :
    Except Stop Unit × SortState n α :=
  (stableSort compare active fuel reserved).exec (.init values)

end model

/-! ## Work between two checks -/

section triples

variable {n : ℕ} {α : Type} {compare : α → α → Ordering} {active : ℕ → Bool}

/-- The log is metered, and the operations since the last check are covered by the work
    counter up to `slack`. -/
structure SortState.Within (slack : ℕ) (state : SortState n α) : Prop where
  metered : Metered .check interruptCheckInterval state.log
  since : sinceCheck .check state.log ≤ state.workSinceCheck + slack
  work : state.workSinceCheck < interruptCheckInterval

/-- The slice holds the values `v` in some order. -/
def Rearranged (v w : Fin n → α) : Prop :=
  ∃ order : Equiv.Perm (Fin n), w = v ∘ order

theorem Rearranged.refl (v : Fin n → α) : Rearranged v v :=
  ⟨Equiv.refl _, rfl⟩

theorem Rearranged.swap {v w : Fin n → α} (h : Rearranged v w) (i j : Fin n) :
    Rearranged v (w ∘ Equiv.swap i j) := by
  obtain ⟨order, rfl⟩ := h
  exact ⟨(Equiv.swap i j).trans order, rfl⟩

/-- What a stop is due to: an answer of the callback or a failed allocation. -/
def Caused (active : ℕ → Bool) (reserved : Bool × Bool) : Stop → Prop
  | .failed .interrupted => ∃ k, active k = false
  | .failed .allocation => reserved ≠ (true, true)
  | .outOfFuel => False

/-- How a run may stop: for a reason, within the bounds and with all values in the slice. -/
def Stopped (active : ℕ → Bool) (reserved : Bool × Bool) (v : Fin n → α) (stop : Stop)
    (state : SortState n α) : Prop :=
  Caused active reserved stop ∧ Metered .check interruptCheckInterval state.log ∧
    Rearranged v state.values

/-- The slice is in `J` and the work is within `slack`. -/
def At (slack : ℕ) (J : (Fin n → α) → Prop) (state : SortState n α) : Prop :=
  state.Within slack ∧ J state.values

/-- A check within the bounds. -/
theorem SortState.Within.check {slack : ℕ} {st : SortState n α} (h : st.Within slack) :
    Metered .check interruptCheckInterval (.check :: st.log) :=
  h.metered.cons (by simp)

/-- An operation after counted work. -/
theorem SortState.Within.op {st : SortState n α} (h : st.Within 0) {op : SortOp}
    (hop : op ≠ .check) (w : Fin n → α) :
    SortState.Within 1 { st with values := w, log := op :: st.log } := by
  have hs := h.since
  have hw := h.work
  refine ⟨h.metered.cons ?_, ?_, h.work⟩
  · rw [sinceCheck_op hop]
    omega
  · rw [sinceCheck_op hop]
    show sinceCheck .check st.log + 1 ≤ st.workSinceCheck + 1
    omega

variable {reserved : Bool × Bool} {v : Fin n → α} {J : (Fin n → α) → Prop}

/-- What counting a piece of work does. -/
theorem exec_countWork (st : SortState n α) : exec (countWork active) st =
      if interruptCheckInterval ≤ st.workSinceCheck + 1 then
        if active st.checks then
          (.ok (), { st with
            workSinceCheck := 0, checks := st.checks + 1, log := .check :: st.log })
        else
          (.error (.failed .interrupted), { st with
            workSinceCheck := st.workSinceCheck + 1
            checks := st.checks + 1
            log := .check :: st.log })
      else (.ok (), { st with workSinceCheck := st.workSinceCheck + 1 }) := by
  unfold countWork callActive
  simp only [exec_bind, exec_modify, exec_get]
  split
  · cases ha : active st.checks <;> simp [exec_bind, ha]
  · rfl

theorem countWork_triple (hJ : ∀ w, J w → Rearranged v w) :
    Triple (At 1 J) (countWork active) (fun _ => At 0 J) (Stopped active reserved v) := by
  rintro st ⟨hwi, hv⟩
  have hs := hwi.since
  rw [exec_countWork]
  by_cases hf : interruptCheckInterval ≤ st.workSinceCheck + 1
  · rw [if_pos hf]
    cases ha : active st.checks with
    | true =>
      refine ⟨⟨hwi.check, ?_, Nat.zero_lt_succ _⟩, hv⟩
      simp
    | false => exact ⟨⟨st.checks, ha⟩, hwi.check, hJ _ hv⟩
  · rw [if_neg hf]
    exact ⟨⟨hwi.metered, hs, Nat.lt_of_not_le hf⟩, hv⟩

theorem compareAt_triple (i j : Fin n) : Triple (At 0 (· = v)) (compareAt compare i j)
      (fun ordering st => At 1 (· = v) st ∧ ordering = compare (v i) (v j)) (Stopped active reserved v) := by
  rintro st ⟨hwi, rfl⟩
  exact ⟨⟨hwi.op (by decide) _, rfl⟩, rfl⟩

theorem swapValues_triple (i j : Fin n) : Triple (At 0 J) (swapValues i j)
      (fun _ => At 1 fun w => ∃ w', J w' ∧ w = w' ∘ Equiv.swap i j) (Stopped active reserved v) := by
  rintro st ⟨hwi, hv⟩
  exact ⟨hwi.op (by decide) _, st.values, hv, rfl⟩

/-- A piece of counted work followed by something that makes no operation. -/
theorem At.relax {slack : ℕ} {state : SortState n α} (h : At 0 J state) : At slack J state :=
  ⟨⟨h.1.metered, h.1.since.trans (Nat.le_add_right _ _), h.1.work⟩, h.2⟩

/-! ## The merge phase -/

/-- The decision of the merge: the left position is taken unless its value is greater. -/
def takeLeft (compare : α → α → Ordering) (v : Fin n → α) (i j : Fin n) : Bool :=
  decide (compare (v i) (v j) ≠ .gt)

theorem listIndices_triple (indices cur : List (Fin n)) :
    Triple (At 1 (· = v)) (listIndices active indices cur)
      (fun r st => At 1 (· = v) st ∧ r = cur ++ indices) (Stopped active reserved v) := by
  induction indices generalizing cur with
  | nil => exact .pure fun st hs => ⟨hs, (List.append_nil _).symm⟩
  | cons index rest ih =>
    refine .bind (countWork_triple ?_) fun _ => ?_
    · rintro w rfl
      exact .refl w
    · refine (ih (cur ++ [index])).mono (fun _ h => h.relax) ?_ (fun _ _ h => h)
      rintro r st ⟨hs, rfl⟩
      exact ⟨hs, by simp⟩

theorem mergeRuns_triple (left right next : List (Fin n)) :
    Triple (At 1 (· = v)) (mergeRuns compare active left right next)
      (fun r st => At 1 (· = v) st ∧
        r = next ++ left.merge right (takeLeft compare v)) (Stopped active reserved v) := by
  have hw : Triple (At 1 (· = v)) (countWork active) (fun _ => At 0 (· = v)) (Stopped active reserved v) := by
    refine countWork_triple ?_
    rintro w rfl
    exact .refl w
  fun_induction mergeRuns compare active left right next with
  | case1 next => exact .pure fun st hs => ⟨hs, by simp⟩
  | case2 _ _ _ ih | case3 _ _ _ ih =>
    refine .bind hw fun _ => ih.mono (fun _ h => h.relax) ?_ (fun _ _ h => h)
    rintro r st ⟨hs, rfl⟩
    exact ⟨hs, by simp⟩
  | case4 i left j right next ihLeft ihRight =>
    refine .bind hw fun _ => .bind (compareAt_triple i j) fun ordering => .assuming ?_
    rintro rfl
    rw [List.cons_merge_cons]
    split
    · next hle =>
      refine ihLeft.mono (fun _ h => h) ?_ (fun _ _ h => h)
      rintro r st ⟨hs, rfl⟩
      refine ⟨hs, ?_⟩
      have ht : takeLeft compare v i j = true := decide_eq_true hle
      rw [if_pos ht]
      simp
    · next hgt =>
      refine ihRight.mono (fun _ h => h) ?_ (fun _ _ h => h)
      rintro r st ⟨hs, rfl⟩
      refine ⟨hs, ?_⟩
      have ht : ¬ takeLeft compare v i j = true := fun h => hgt (of_decide_eq_true h)
      rw [if_neg ht]
      simp

theorem mergePass_triple {w : ℕ} (hw : 0 < w) (cur next : List (Fin n)) :
    Triple (At 1 (· = v)) (mergePass compare active w hw cur next)
      (fun r st => At 1 (· = v) st ∧
        r = next ++ mergeAdjacent (takeLeft compare v) w hw cur) (Stopped active reserved v) := by
  fun_induction mergePass compare active w hw cur next with
  | case1 next =>
    rw [mergeAdjacent, if_pos rfl]
    exact .pure fun st hs => ⟨hs, (List.append_nil _).symm⟩
  | case2 cur next hne ih =>
    refine .bind (mergeRuns_triple _ _ _) fun merged => .assuming ?_
    rintro rfl
    refine (ih _).mono (fun _ h => h) ?_ (fun _ _ h => h)
    rintro r st ⟨hs, rfl⟩
    refine ⟨hs, ?_⟩
    rw [mergeAdjacent.eq_def _ _ _ cur, if_neg hne, List.append_assoc]

/-- The passes end with the positions in the order of the stable sort. -/
theorem mergePasses_triple [TransCmp compare] {w : ℕ} (hw : 0 < w)
    (cur : List (Fin n)) (hr : Runs (Precedes compare v) w cur)
    (hp : cur.Perm (List.finRange n)) :
    Triple (At 1 (· = v)) (mergePasses compare active w hw cur)
      (fun r st => At 1 (· = v) st ∧
        (r.Pairwise (Precedes compare v) ∧ r.Perm (List.finRange n))) (Stopped active reserved v) := by
  fun_induction mergePasses compare active w hw cur with
  | case1 w hw cur hlt ih =>
    refine .bind (mergePass_triple hw cur []) fun merged => .assuming ?_
    rintro rfl
    refine ih _ (hr.merged (fun _ _ _ => Precedes.trans) ?_ hw)
      ((mergeAdjacent_perm w hw cur).trans hp)
    intro i j hij
    refine ⟨fun hle => .of_isLE hij (of_decide_eq_true hle), fun hgt => .of_gt ?_⟩
    simpa [takeLeft] using hgt
  | case2 w hw cur hge =>
    refine .pure fun st hs => ⟨hs, hr.pairwise ?_, hp⟩
    rw [hp.length_eq, List.length_finRange]
    omega

/-! ## The permutation of the order -/

/-- The inversion sends the `k`-th position of the order to `k`. -/
theorem invertOrder_triple [NeZero n] (cur : List (Fin n)) (newPosition : ℕ)
    (next : Fin n → Fin n) (hn : cur.Nodup) :
    Triple (At 1 (· = v)) (invertOrder active cur newPosition next)
      (fun r st => At 1 (· = v) st ∧
        ((∀ k (hk : k < cur.length), r cur[k] = Fin.ofNat n (newPosition + k)) ∧
          ∀ i ∉ cur, r i = next i)) (Stopped active reserved v) := by
  induction cur generalizing newPosition next with
  | nil => exact .pure fun st hs => ⟨hs, by simp⟩
  | cons old cur ih =>
    rw [List.nodup_cons] at hn
    refine .bind (countWork_triple ?_) fun _ => ?_
    · rintro w rfl
      exact .refl w
    refine (ih (newPosition + 1) _ hn.2).mono (fun _ h => h.relax) ?_ (fun _ _ h => h)
    rintro r st ⟨hs, hl, ho⟩
    refine ⟨hs, ?_, ?_⟩
    · rintro (_ | k) hk
      · rw [List.getElem_cons_zero, ho old hn.1, Function.update_self, Nat.add_zero]
      · rw [List.getElem_cons_succ, hl k (Nat.lt_of_succ_lt_succ hk)]
        congr 1
        omega
    · intro i hi
      rw [List.mem_cons, not_or] at hi
      rw [ho i hi.2, Function.update_of_ne hi.1]

/-- The slice holds the values `v`, and `next` leads them to `target`. -/
def Routing (v target : Fin n → α) (next : Fin n → Fin n) (w : Fin n → α) : Prop :=
  Rearranged v w ∧ Routed target w next

variable {target : Fin n → α}

/-- A cycle ends with its position settled, and moves no settled element. -/
theorem applyCycle_triple {fuel : ℕ} (pos : Fin n) {next : Fin n → Fin n}
    (hin : Function.Injective next) (hf : unsettled next ≤ fuel) :
    Triple (At 1 (Routing v target next)) (applyCycle active fuel pos next)
      (fun next' st => At 1 (Routing v target next') st ∧
        (Function.Injective next' ∧ next' pos = pos ∧ ∀ i, next i = i → next' i = i))
      (Stopped active reserved v) := by
  induction fuel generalizing next with
  | zero =>
    unfold applyCycle
    split
    · next hm =>
      have hlt := unsettled_swap_lt hin hm
      omega
    · next hst =>
      exact .pure fun st hs => ⟨hs, hin, not_not.mp hst, fun _ h => h⟩
  | succ fuel ih =>
    unfold applyCycle
    split
    · next hm =>
      have hlt := unsettled_swap_lt hin hm
      refine .bind (countWork_triple fun w hw => hw.1) fun _ =>
        .bind (swapValues_triple pos (next pos)) fun _ => ?_
      refine (ih (hin.comp (Equiv.injective _)) (by omega)).mono ?_ ?_ (fun _ _ h => h)
      · rintro st ⟨hwi, w, ⟨hrr, hr⟩, hv⟩
        refine ⟨hwi, ?_⟩
        rw [hv]
        exact ⟨hrr.swap _ _, hr.swap _ _⟩
      · rintro next' st ⟨hs, hi', hp, hk⟩
        exact ⟨hs, hi', hp, fun i hi => hk i (settled_swap hin hm hi)⟩
    · next hst =>
      exact .pure fun st hs => ⟨hs, hin, not_not.mp hst, fun _ h => h⟩

/-- The cycles through all listed positions settle them. -/
theorem applyCycles_triple {fuel : ℕ} (hf : n ≤ fuel) (positions : List (Fin n))
    {next : Fin n → Fin n} (hin : Function.Injective next)
    (hst : ∀ i ∉ positions, next i = i) :
    Triple (At 1 (Routing v target next)) (applyCycles active fuel positions next)
      (fun _ => At 1 fun w => Rearranged v w ∧ w = target) (Stopped active reserved v) := by
  induction positions generalizing next with
  | nil =>
    refine .pure fun st hs => ⟨hs.1, hs.2.1, hs.2.2.eq_target fun i => ?_⟩
    exact hst i List.not_mem_nil
  | cons pos rest ih =>
    have hb : unsettled next ≤ fuel := by
      have hle := unsettled_le next
      rw [Fintype.card_fin] at hle
      omega
    refine .bind (applyCycle_triple pos hin hb) fun next' => .assuming ?_
    rintro ⟨hi', hp, hk⟩
    refine ih hi' fun i hi => ?_
    by_cases heq : i = pos
    · rw [heq]
      exact hp
    · exact hk i (hst i (by simp [heq, hi]))

/-- The values `v` in the order of a list of positions. -/
def inOrder (v : Fin n → α) {current : List (Fin n)} (hlength : current.length = n) : Fin n → α :=
  fun k => v (current.get (k.cast hlength.symm))

/-- The inverse of an order leads the values to their places in that order. -/
theorem routed_of_inverse [NeZero n] {cur : List (Fin n)} (hln : cur.length = n)
    (hpr : cur.Perm (List.finRange n)) {next : Fin n → Fin n}
    (hi : ∀ k (hk : k < cur.length), next cur[k] = Fin.ofNat n (0 + k)) :
    Routed (inOrder v hln) v next := by
  have hp : ∀ k : Fin n, next (cur.get (k.cast hln.symm)) = k := by
    intro k
    have hk := hi k (by rw [hln]; exact k.isLt)
    rw [Nat.zero_add] at hk
    exact hk.trans (Fin.ofNat_val_eq_self k)
  have hl : ∀ i : Fin n, ∃ k : Fin n, cur.get (k.cast hln.symm) = i := by
    intro i
    obtain ⟨k, hk⟩ := List.get_of_mem (hpr.mem_iff.mpr (List.mem_finRange i))
    exact ⟨k.cast hln, hk⟩
  refine ⟨?_, ?_⟩
  · intro i j hij
    obtain ⟨k, rfl⟩ := hl i
    obtain ⟨l, rfl⟩ := hl j
    rw [hp, hp] at hij
    rw [hij]
  · funext i
    obtain ⟨k, rfl⟩ := hl i
    rw [Function.comp_apply, hp, inOrder]

/-- An ordered list of all positions gives the stable sort. -/
theorem isStableSort_of_order {cur : List (Fin n)} (hl : cur.length = n)
    (hp : cur.Perm (List.finRange n)) (ho : cur.Pairwise (Precedes compare v)) :
    IsStableSort compare v (inOrder v hl) := by
  have hn : cur.Nodup := hp.nodup_iff.mpr (List.nodup_finRange n)
  have hi : Function.Injective fun k : Fin n => cur.get (k.cast hl.symm) := by
    intro k l hkl
    have hc := List.nodup_iff_injective_get.mp hn hkl
    exact Fin.cast_injective _ hc
  refine ⟨.ofBijective _ (Finite.injective_iff_bijective.mp hi), rfl, ?_⟩
  intro i j hij
  exact List.pairwise_iff_get.mp ho _ _ hij

/-! ## The whole sort -/

theorem checkActive_triple (hJ : ∀ w, J w → Rearranged v w) :
    Triple (At 1 J) (checkActive active) (fun _ => At 1 J) (Stopped active reserved v) := by
  rintro st ⟨hwi, hv⟩
  unfold checkActive callActive
  simp only [exec_bind, exec_modify, exec_get, exec_pure]
  cases ha : active st.checks with
  | true =>
    refine ⟨⟨hwi.check, ?_, hwi.work⟩, hv⟩
    simp
  | false => exact ⟨⟨st.checks, ha⟩, hwi.check, hJ _ hv⟩

theorem tryReserve_triple {enough : Bool} (he : enough = false → reserved ≠ (true, true))
    (hJ : ∀ w, J w → Rearranged v w) :
    Triple (At 1 J) (tryReserve enough) (fun _ => At 1 J) (Stopped active reserved v) := by
  cases enough with
  | true => exact .pure fun st hs => hs
  | false => exact .throw fun st hs => ⟨he rfl, hs.1.metered, hJ _ hs.2⟩

/-- The whole sort: it leaves the stable sort, or stops for a reason. -/
theorem stableSort_triple [TransCmp compare] {fuel : ℕ} (hfl : n ≤ fuel) :
    Triple (At 1 (· = v)) (stableSort compare active fuel reserved)
      (fun _ => At 1 fun w => Rearranged v w ∧ IsStableSort compare v w)
      (Stopped active reserved v) := by
  have hs : ∀ w, w = v → Rearranged v w := by
    rintro w rfl
    exact .refl w
  have hf : reserved.1 = false → reserved ≠ (true, true) := by
    rintro h rfl
    cases h
  have hsc : reserved.2 = false → reserved ≠ (true, true) := by
    rintro h rfl
    cases h
  refine .bind (checkActive_triple hs) fun _ => ?_
  split
  · next hsh =>
    refine .pure fun st hst => ⟨hst.1, hs _ hst.2, .refl _, hst.2, ?_⟩
    omega
  next hln =>
  have : NeZero n := ⟨by omega⟩
  refine .bind (tryReserve_triple hf hs) fun _ =>
    .bind (listIndices_triple _ _) fun indices => .assuming ?_
  rintro rfl
  refine .bind (tryReserve_triple hsc hs) fun _ =>
    .bind (mergePasses_triple Nat.one_pos _ (.ofSorted (List.pairwise_lt_finRange n)) (.refl _))
      fun cur => .assuming ?_
  rintro ⟨ho, hp⟩
  have hl : cur.length = n := by rw [hp.length_eq, List.length_finRange]
  have hn : cur.Nodup := hp.nodup_iff.mpr (List.nodup_finRange n)
  refine .bind (invertOrder_triple _ _ _ hn) fun next => .assuming ?_
  rintro ⟨hin, -⟩
  have hr := routed_of_inverse (v := v) hl hp hin
  refine .bind (Q := fun _ => At 1 fun w => Rearranged v w ∧ IsStableSort compare v w) ?_
    fun _ => checkActive_triple fun w hw => hw.1
  have hc : Triple (At 1 (Routing v (inOrder v hl) next))
      (applyCycles active fuel (List.finRange n) next)
      (fun _ => At 1 fun w => Rearranged v w ∧ w = inOrder v hl)
      (Stopped active reserved v) :=
    applyCycles_triple hfl _ hr.injective fun i hi => absurd (List.mem_finRange i) hi
  refine hc.mono ?_ ?_ (fun _ _ h => h)
  · rintro st ⟨hwi, hv⟩
    refine ⟨hwi, hs _ hv, ?_⟩
    rw [hv]
    exact hr
  · rintro _ st ⟨hwi, hrr, hv⟩
    refine ⟨hwi, hrr, ?_⟩
    rw [hv]
    exact isStableSort_of_order hl hp ho

/-- The same for a call on a slice. -/
theorem stableSortByInterruptible_outcome [TransCmp compare] {fuel : ℕ} (hf : n ≤ fuel) :
    Leaves (fun _ => At 1 fun w => Rearranged v w ∧ IsStableSort compare v w)
      (Stopped active reserved v) (stableSortByInterruptible compare active fuel reserved v) := by
  have ht : Triple (At 1 (· = v)) (stableSort compare active fuel reserved)
      (fun _ => At 1 fun w => Rearranged v w ∧ IsStableSort compare v w)
      (Stopped active reserved v) := stableSort_triple hf
  exact ht (SortState.init v) ⟨⟨.nil, Nat.zero_le _, Nat.zero_lt_succ _⟩, rfl⟩

end triples

/-- Every call of the sort, with enough fuel for its loops, ends and leaves the values of the
    slice in some order. It fails only if the callback answers `false` or an allocation fails.
    A success leaves the stable sort, which is unique. Between two checks there are at most 256
    comparisons and at most 256 swaps. -/
theorem stableSortByInterruptible_sorts {n : ℕ} {α : Type} (compare : α → α → Ordering)
    [TransCmp compare] (active : ℕ → Bool) (reserved : Bool × Bool) (values : Fin n → α)
    (fuel : ℕ) (hfuel : n ≤ fuel) :
    ((stableSortByInterruptible compare active fuel reserved values).1 = .ok () ∨
        ((stableSortByInterruptible compare active fuel reserved values).1 =
            .error (.failed .interrupted) ∧ ∃ k, active k = false) ∨
        ((stableSortByInterruptible compare active fuel reserved values).1 =
            .error (.failed .allocation) ∧ reserved ≠ (true, true))) ∧
      Rearranged values (stableSortByInterruptible compare active fuel reserved values).2.values ∧
      ((stableSortByInterruptible compare active fuel reserved values).1 = .ok () →
        IsStableSort compare values
            (stableSortByInterruptible compare active fuel reserved values).2.values ∧
          ∀ other, IsStableSort compare values other → other =
            (stableSortByInterruptible compare active fuel reserved values).2.values) ∧
      ∀ stretch, stretch <:+:
          (stableSortByInterruptible compare active fuel reserved values).2.log →
        SortOp.check ∉ stretch →
          stretch.count .compare ≤ 256 ∧ stretch.count .swap ≤ 256 := by
  have ho : Leaves (fun _ => At 1 fun w => Rearranged values w ∧
      IsStableSort compare values w) (Stopped active reserved values)
      (stableSortByInterruptible compare active fuel reserved values) :=
    stableSortByInterruptible_outcome hfuel
  generalize stableSortByInterruptible compare active fuel reserved values = result at ho ⊢
  obtain ⟨answer, state⟩ := result
  cases answer with
  | ok =>
    obtain ⟨hw, hr, hsr⟩ := ho
    refine ⟨.inl rfl, hr, fun _ => ⟨hsr, fun other h => h.unique hsr⟩, ?_⟩
    exact fun stretch hs hch => ⟨hw.metered.count_le hs hch _, hw.metered.count_le hs hch _⟩
  | error stop =>
    obtain ⟨hc, hm, hr⟩ := ho
    refine ⟨.inr ?_, hr, fun h => (nomatch h), ?_⟩
    · match stop, hc with
      | .failed .interrupted, hc => exact .inl ⟨rfl, hc⟩
      | .failed .allocation, hc => exact .inr ⟨rfl, hc⟩
    · exact fun stretch hs hch => ⟨hm.count_le hs hch _, hm.count_le hs hch _⟩

/-- A sort of three numbers under a callback that is interrupted at its second call. -/
theorem stableSortByInterruptible_sorts_three : Rearranged ![3, 1, 2]
      (stableSortByInterruptible compare (fun k => decide (k < 1)) 3 (true, true)
        ![3, 1, 2]).2.values :=
  (stableSortByInterruptible_sorts compare (fun k => decide (k < 1)) (true, true) ![3, 1, 2] 3
    le_rfl).2.1

end DufsRam.Listing
