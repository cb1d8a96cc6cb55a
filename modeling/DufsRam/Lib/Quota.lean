import DufsRam.Lib.Table

/-!
# Tables with a capacity

A table that is only inserted into while there is room stays within its capacity, as a
whole and for each owner of its keys.

Results:
* `Table.countWhere_put`: what storing a row does to a count over the keys.
* `Table.Quota` and its lemmas: which operations keep a table within its limits.
-/

namespace Table

variable {κ ρ ω : Type*}

theorem countWhere_eq_total (t : Table κ ρ) (p : κ → ρ → Bool) :
    t.countWhere p = t.total fun k r => if p k r then 1 else 0 := by
  rcases t with ⟨rows, hnd⟩
  simp only [countWhere, total]
  clear hnd
  induction rows with
  | nil => rfl
  | cons row rows ih =>
    rw [List.countP_cons, List.map_cons, List.sum_cons, ih]
    exact Nat.add_comm _ _

theorem countWhere_deleteWhere_le (t : Table κ ρ) (p q : κ → ρ → Bool) :
    (t.deleteWhere q).countWhere p ≤ t.countWhere p :=
  List.filter_sublist.countP_le

/-- What is left of a count after a deletion, and what is deleted. -/
theorem countWhere_deleteWhere (t : Table κ ρ) (p q : κ → ρ → Bool) :
    (t.deleteWhere q).countWhere p + t.countWhere (fun k r => p k r && q k r) = t.countWhere p := by
  simp only [countWhere, deleteWhere, List.countP_filter]
  induction t.rows with
  | nil => rfl
  | cons row rows ih =>
    simp only [List.countP_cons]
    cases p row.1 row.2 <;> cases q row.1 row.2 <;> simp <;> omega

/-- Rewriting rows does not change a count over the keys. -/
theorem countWhere_mapRows (t : Table κ ρ) (f : κ → ρ → ρ) (p : κ → Bool) :
    (t.mapRows f).countWhere (fun k _ => p k) = t.countWhere fun k _ => p k := by
  simp only [countWhere, mapRows, List.countP_map]
  rfl

/-- Storing a row adds one to a count over the keys, if the key is new and counted. -/
theorem countWhere_put [DecidableEq κ] (t : Table κ ρ) (k : κ) (r : ρ) (p : κ → Bool) :
    (t.put k r).countWhere (fun k _ => p k) =
      (t.countWhere fun k _ => p k) + if p k = true ∧ t.get k = none then 1 else 0 := by
  have hp := total_put t k r fun k _ => if p k then 1 else 0
  rw [countWhere_eq_total, countWhere_eq_total]
  cases hg : t.get k with
  | none =>
    rw [hg, Option.elim_none] at hp
    simpa using hp
  | some r' =>
    rw [hg, Option.elim_some] at hp
    simpa using hp

/-- At most `capacity` rows, and at most `perOwner` of each owner. -/
structure Quota [DecidableEq ω] (owner : κ → ω) (capacity perOwner : ℕ) (t : Table κ ρ) :
    Prop where
  rows : t.countWhere (fun _ _ => true) ≤ capacity
  owned : ∀ o, t.countWhere (fun k _ => decide (owner k = o)) ≤ perOwner

namespace Quota

variable [DecidableEq ω] {owner : κ → ω} {capacity perOwner : ℕ} {t : Table κ ρ}

theorem empty : Quota owner capacity perOwner (.empty : Table κ ρ) :=
  ⟨Nat.zero_le _, fun _ => Nat.zero_le _⟩

theorem deleteWhere (h : Quota owner capacity perOwner t) (q : κ → ρ → Bool) :
    Quota owner capacity perOwner (t.deleteWhere q) :=
  ⟨(t.countWhere_deleteWhere_le _ q).trans h.rows,
    fun o => (t.countWhere_deleteWhere_le _ q).trans (h.owned o)⟩

theorem updateWhere (h : Quota owner capacity perOwner t) (q : κ → ρ → Bool) (f : ρ → ρ) :
    Quota owner capacity perOwner (t.updateWhere q f) := by
  refine ⟨?_, fun o => ?_⟩
  · rw [Table.updateWhere, countWhere_mapRows t _ fun _ => true]
    exact h.rows
  · rw [Table.updateWhere, countWhere_mapRows t _ fun k => decide (owner k = o)]
    exact h.owned o

variable [DecidableEq κ]

theorem erase (h : Quota owner capacity perOwner t) (k : κ) :
    Quota owner capacity perOwner (t.erase k) :=
  h.deleteWhere _

/-- An update of a row that is there. -/
theorem put_of_get (h : Quota owner capacity perOwner t) {k : κ} {r' : ρ} (hg : t.get k = some r')
    (r : ρ) : Quota owner capacity perOwner (t.put k r) := by
  refine ⟨?_, fun o => ?_⟩
  · rw [countWhere_put t k r fun _ => true, if_neg (by simp [hg])]
    exact h.rows
  · rw [countWhere_put t k r fun k => decide (owner k = o), if_neg (by simp [hg])]
    exact h.owned o

/-- A new row while there is room for it and for its owner. -/
theorem put_of_room (h : Quota owner capacity perOwner t) {k : κ} (r : ρ)
    (hr : t.countWhere (fun _ _ => true) < capacity)
    (ho : t.countWhere (fun k' _ => decide (owner k' = owner k)) < perOwner) :
    Quota owner capacity perOwner (t.put k r) := by
  refine ⟨?_, fun o => ?_⟩
  · rw [countWhere_put t k r fun _ => true]
    split_ifs <;> omega
  rw [countWhere_put t k r fun k => decide (owner k = o)]
  split_ifs with hn
  · obtain rfl : owner k = o := by simpa using hn.1
    omega
  · exact h.owned o

end Quota

end Table
