import Mathlib

/-!
# Finite keyed tables

A `Table κ ρ` is a finite list of rows with pairwise distinct keys: an ordered map,
or a database table with its primary key. Every operation is described by what
`get` returns afterwards, so that proofs about a table never look at its rows.

Results:
* `Table.get_put`, `Table.get_erase`, `Table.get_deleteWhere`, `Table.get_mapRows`:
  one equation for each operation.
* `Table.any_iff`: a search over all rows in terms of `get`.
-/

namespace IntOrder

/-- Integers are compared by their decidable order, so that a selection by it can be computed. -/
scoped instance intPreorder : Preorder ℤ := Int.instLinearOrder.toPreorder

end IntOrder

/-- Rows with pairwise distinct keys. -/
structure Table (κ ρ : Type*) where
  rows : List (κ × ρ)
  nodupKeys : (rows.map Prod.fst).Nodup

namespace Table

variable {κ ρ : Type*}

instance : Inhabited (Table κ ρ) := ⟨⟨[], List.nodup_nil⟩⟩

/-- The table without rows. -/
def empty : Table κ ρ := ⟨[], List.nodup_nil⟩

/-- Does some row satisfy `p`? -/
def any (t : Table κ ρ) (p : κ → ρ → Bool) : Bool := t.rows.any fun row => p row.1 row.2

/-- How many rows satisfy `p`? -/
def countWhere (t : Table κ ρ) (p : κ → ρ → Bool) : ℕ := t.rows.countP fun row => p row.1 row.2

/-- The sum of `f` over all rows. -/
def total (t : Table κ ρ) (f : κ → ρ → ℕ) : ℕ := (t.rows.map fun row => f row.1 row.2).sum

/-- Remove every row that satisfies `p`. -/
def deleteWhere (t : Table κ ρ) (p : κ → ρ → Bool) : Table κ ρ :=
  ⟨t.rows.filter fun row => !p row.1 row.2,
    t.nodupKeys.sublist (List.filter_sublist.map Prod.fst)⟩

/-- Replace the contents of every row. -/
def mapRows (t : Table κ ρ) (f : κ → ρ → ρ) : Table κ ρ :=
  ⟨t.rows.map fun row => (row.1, f row.1 row.2), by
    rw [List.map_map]
    exact t.nodupKeys⟩

/-- `UPDATE … SET f WHERE p`: replace the contents of the rows that satisfy `p`. -/
def updateWhere (t : Table κ ρ) (p : κ → ρ → Bool) (f : ρ → ρ) : Table κ ρ :=
  t.mapRows fun k r => if p k r then f r else r

variable [DecidableEq κ]

/-- The row stored under a key. -/
def get (t : Table κ ρ) (k : κ) : Option ρ :=
  (t.rows.find? fun row => row.1 = k).map Prod.snd

/-- Remove the row stored under a key. -/
def erase (t : Table κ ρ) (k : κ) : Table κ ρ := t.deleteWhere fun k' _ => decide (k' = k)

theorem key_not_mem_erase (t : Table κ ρ) (k : κ) : k ∉ (t.erase k).rows.map Prod.fst := by
  simp [erase, deleteWhere]

/-- Store a row under a key, replacing the one that was there. -/
def put (t : Table κ ρ) (k : κ) (r : ρ) : Table κ ρ :=
  ⟨(k, r) :: (t.erase k).rows, by
    rw [List.map_cons, List.nodup_cons]
    exact ⟨key_not_mem_erase t k, (t.erase k).nodupKeys⟩⟩

/-! ## Lookup -/

variable {t : Table κ ρ} {k k' : κ} {r r' : ρ}

theorem get_eq_some_iff : t.get k = some r ↔ (k, r) ∈ t.rows := by
  rcases t with ⟨rows, hnd⟩
  simp only [get]
  induction rows with
  | nil => simp
  | cons row rows ih =>
    obtain ⟨hn, hnd⟩ := List.nodup_cons.mp hnd
    by_cases hk : row.1 = k
    · subst hk
      -- The key of the first row occurs nowhere else.
      have hr : ∀ r', (row.1, r') ∉ rows := fun r' hr' =>
        hn (List.mem_map.mpr ⟨(row.1, r'), hr', rfl⟩)
      simp only [decide_true, List.find?_cons_of_pos, Option.map_some, Option.some.injEq,
        List.mem_cons, hr, or_false]
      exact ⟨fun h => by rw [← h], fun h => by rw [← h]⟩
    · have hne : (k, r) ≠ row := fun h => hk (by rw [← h])
      simp [hk, ih hnd, hne]

theorem any_iff {p : κ → ρ → Bool} : t.any p = true ↔ ∃ k r, t.get k = some r ∧ p k r = true := by
  simp [any, get_eq_some_iff]

theorem any_eq_false_iff {p : κ → ρ → Bool} :
    t.any p = false ↔ ∀ k r, t.get k = some r → p k r = false := by
  rw [← Bool.not_eq_true, any_iff]
  simp

/-! ## Operations -/

@[simp] theorem get_empty (k : κ) : (empty : Table κ ρ).get k = none := rfl

@[simp] theorem get_deleteWhere (t : Table κ ρ) (p : κ → ρ → Bool) (k : κ) :
    (t.deleteWhere p).get k = (t.get k).bind fun r => if p k r then none else some r := by
  ext r
  simp only [get_eq_some_iff, Option.bind_eq_some_iff, deleteWhere, List.mem_filter]
  constructor
  · rintro ⟨hm, hp⟩
    exact ⟨r, hm, by rw [if_neg (by simpa using hp)]⟩
  rintro ⟨r', hm, hif⟩
  split_ifs at hif with hp
  obtain ⟨⟩ := hif
  exact ⟨hm, by simpa using hp⟩

@[simp] theorem get_mapRows (t : Table κ ρ) (f : κ → ρ → ρ) (k : κ) :
    (t.mapRows f).get k = (t.get k).map (f k) := by
  ext r
  simp only [get_eq_some_iff, Option.map_eq_some_iff, mapRows, List.mem_map,
    Prod.exists, Prod.mk.injEq]
  constructor
  · rintro ⟨k', r', hm, rfl, rfl⟩
    exact ⟨r', hm, rfl⟩
  · rintro ⟨r', hm, rfl⟩
    exact ⟨k, r', hm, rfl, rfl⟩

@[simp] theorem get_updateWhere (t : Table κ ρ) (p : κ → ρ → Bool) (f : ρ → ρ) (k : κ) :
    (t.updateWhere p f).get k = (t.get k).map fun r => if p k r then f r else r := by
  rw [updateWhere, get_mapRows]

@[simp] theorem get_erase (t : Table κ ρ) (k k' : κ) :
    (t.erase k).get k' = if k' = k then none else t.get k' := by
  rw [erase, get_deleteWhere]
  by_cases h : k' = k
  · cases t.get k' <;> simp [h]
  · cases t.get k' <;> simp [h]

@[simp] theorem get_put (t : Table κ ρ) (k : κ) (r : ρ) (k' : κ) :
    (t.put k r).get k' = if k' = k then some r else t.get k' := by
  have hc : (t.put k r).get k' = if k' = k then some r else (t.erase k).get k' := by
    by_cases h : k = k'
    · simp [put, get, h]
    · simp [put, get, h, Ne.symm h]
  rw [hc]
  split_ifs with h
  · rfl
  · simp [h]

theorem get_put_of_ne (h : t.get k' = some r') (hne : k' ≠ k) : (t.put k r).get k' = some r' := by
  rw [get_put, if_neg hne]
  exact h

/-- A row found after storing one is that row or was there before. -/
theorem get_put_cases (h : (t.put k r).get k' = some r') :
    (k' = k ∧ r' = r) ∨ (k' ≠ k ∧ t.get k' = some r') := by
  rw [get_put] at h
  by_cases hk : k' = k
  · rw [if_pos hk] at h
    exact Or.inl ⟨hk, (Option.some.inj h).symm⟩
  · rw [if_neg hk] at h
    exact Or.inr ⟨hk, h⟩

theorem forall_get_put {P : κ → ρ → Prop} (hr : P k r)
    (h : ∀ k' r', t.get k' = some r' → P k' r') (k' : κ) (r' : ρ)
    (hg : (t.put k r).get k' = some r') : P k' r' := by
  obtain ⟨rfl, rfl⟩ | ⟨-, hold⟩ := get_put_cases hg
  · exact hr
  · exact h k' r' hold

/-- An attribute still determines the key if the stored row shares it with no other. -/
theorem eq_of_get_put {α : Type*} {f : ρ → α}
    (h : ∀ m n a b, t.get m = some a → t.get n = some b → f a = f b → m = n)
    (hr : ∀ m a, t.get m = some a → f a = f r → m = k) (m n : κ) (a b : ρ)
    (ha : (t.put k r).get m = some a) (hb : (t.put k r).get n = some b) (hf : f a = f b) :
    m = n := by
  obtain ⟨rfl, rfl⟩ | ⟨-, ha'⟩ := get_put_cases ha
  · obtain ⟨rfl, -⟩ | ⟨-, hb⟩ := get_put_cases hb
    · rfl
    · exact (hr n b hb hf.symm).symm
  · obtain ⟨rfl, rfl⟩ | ⟨-, hb⟩ := get_put_cases hb
    · exact hr m a ha' hf
    · exact h m n a b ha' hb hf

theorem get_of_get_erase (h : (t.erase k).get k' = some r) : k' ≠ k ∧ t.get k' = some r := by
  rw [get_erase] at h
  by_cases hk : k' = k
  · rw [if_pos hk] at h; cases h
  · rw [if_neg hk] at h
    exact ⟨hk, h⟩

/-- Storing a row leaves a row under every key that had one. -/
theorem exists_get_put (h : t.get k' = some r') : ∃ r'', (t.put k r).get k' = some r'' := by
  by_cases hk : k' = k
  · exact ⟨r, by rw [get_put, if_pos hk]⟩
  · exact ⟨r', get_put_of_ne h hk⟩

/-! ## Counting -/

theorem countWhere_pos_iff {p : κ → ρ → Bool} :
    0 < t.countWhere p ↔ ∃ k r, t.get k = some r ∧ p k r = true := by
  simp [countWhere, get_eq_some_iff]

/-- A condition that fixes the key holds of at most one row. -/
theorem countWhere_eq_one_iff {p : κ → ρ → Bool} (hp : ∀ k' r, p k' r = true → k' = k) :
    t.countWhere p = 1 ↔ ∃ r, t.get k = some r ∧ p k r = true := by
  have hle : t.countWhere p ≤ 1 := by
    have hs : ((t.rows.filter fun row => p row.1 row.2).map Prod.fst).Sublist
        (t.rows.map Prod.fst) := List.filter_sublist.map Prod.fst
    have ha : ∀ k' ∈ (t.rows.filter fun row => p row.1 row.2).map Prod.fst, k' = k := by
      intro k' hk'
      obtain ⟨row, hr, rfl⟩ := List.mem_map.mp hk'
      exact hp row.1 row.2 (List.mem_filter.mp hr).2
    have hn := t.nodupKeys.sublist hs
    rw [countWhere, List.countP_eq_length_filter, ← List.length_map Prod.fst]
    rw [List.eq_replicate_of_mem ha] at hn ⊢
    rw [List.length_replicate]
    exact List.nodup_replicate.mp hn
  constructor
  · intro ho
    obtain ⟨k', r, hg, hpr⟩ := countWhere_pos_iff.mp (by rw [ho]; exact Nat.one_pos)
    obtain rfl := hp k' r hpr
    exact ⟨r, hg, hpr⟩
  · rintro ⟨r, hg, hpr⟩
    have hps := countWhere_pos_iff.mpr ⟨k, r, hg, hpr⟩
    omega

/-! ## Sums -/

/-- A count of one leaves no room for a second row. -/
theorem key_eq_of_countWhere_eq_one {p : κ → ρ → Bool} (hc : t.countWhere p = 1)
    (hk : t.get k = some r) (hp : p k r = true) (hk' : t.get k' = some r') (hp' : p k' r' = true) :
    k = k' := by
  rw [countWhere, List.countP_eq_length_filter, List.length_eq_one_iff] at hc
  obtain ⟨row, hr⟩ := hc
  have hm : (k, r) ∈ t.rows.filter fun row => p row.1 row.2 :=
    List.mem_filter.mpr ⟨get_eq_some_iff.mp hk, hp⟩
  have hm' : (k', r') ∈ t.rows.filter fun row => p row.1 row.2 :=
    List.mem_filter.mpr ⟨get_eq_some_iff.mp hk', hp'⟩
  rw [hr, List.mem_singleton] at hm hm'
  exact congrArg Prod.fst (hm.trans hm'.symm)

/-- Erasing a row takes its share out of the sum. -/
theorem total_erase (t : Table κ ρ) (k : κ) (f : κ → ρ → ℕ) :
    (t.erase k).total f + (t.get k).elim 0 (f k) = t.total f := by
  rcases t with ⟨rows, hnd⟩
  simp only [total, erase, deleteWhere, get]
  induction rows with
  | nil => rfl
  | cons row rows ih =>
    obtain ⟨hn, hnd⟩ := List.nodup_cons.mp hnd
    by_cases hk : row.1 = k
    · -- No later row has the key of the first one.
      have hr : (rows.filter fun row' => !decide (row'.1 = k)) = rows := by
        refine List.filter_eq_self.mpr fun row' hr' => ?_
        have hne : row'.1 ≠ k := fun h =>
          hn (List.mem_map.mpr ⟨row', hr', h.trans hk.symm⟩)
        simp [hne]
      simp only [hk, decide_true, Bool.not_true, Bool.false_eq_true, not_false_eq_true,
        List.filter_cons_of_neg, List.find?_cons_of_pos, Option.map_some, Option.elim_some,
        List.map_cons, List.sum_cons, hr]
      exact Nat.add_comm _ _
    · have := ih hnd
      simp only [hk, decide_false, Bool.not_false, List.filter_cons_of_pos, Bool.false_eq_true,
        not_false_eq_true, List.find?_cons_of_neg, List.map_cons, List.sum_cons]
      omega

/-- Storing a row replaces the share of the old one. -/
theorem total_put (t : Table κ ρ) (k : κ) (r : ρ) (f : κ → ρ → ℕ) :
    (t.put k r).total f + (t.get k).elim 0 (f k) = t.total f + f k r := by
  have hp : (t.put k r).total f = f k r + (t.erase k).total f := by
    simp [total, put]
  have := total_erase t k f
  omega

theorem total_le_total {f g : κ → ρ → ℕ} (h : ∀ k r, t.get k = some r → f k r ≤ g k r) :
    t.total f ≤ t.total g := by
  refine List.sum_le_sum fun row hr => ?_
  exact h row.1 row.2 (get_eq_some_iff.mpr hr)

end Table
