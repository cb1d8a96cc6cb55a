import DufsRam.Lib.Table

/-!
# A list that mirrors rows of a table

A program that works on some rows of a table often keeps a list of them in memory. The list mirrors
the table if it holds exactly the rows with a property, each key once. The lemmas say how the two may
change together.
-/

namespace Table

variable {κ ρ : Type*} [DecidableEq κ]

/-- `l` is the list of the rows with the property, each once. -/
structure Mirrors (p : ρ → Prop) (t : Table κ ρ) (l : List (κ × ρ)) : Prop where
  mem_iff : ∀ row, row ∈ l ↔ t.get row.1 = some row.2 ∧ p row.2
  nodup : (l.map Prod.fst).Nodup

namespace Mirrors

variable {p : ρ → Prop} {t t' : Table κ ρ} {l l' : List (κ × ρ)} {k : κ} {r r' : ρ}

/-- No row has the property. -/
theorem nil (h : ∀ k r, t.get k = some r → ¬ p r) : Mirrors p t [] := by
  refine ⟨fun row => ?_, List.nodup_nil⟩
  simp only [List.not_mem_nil, false_iff, not_and]
  exact h row.1 row.2

theorem perm (h : Mirrors p t l) (hp : l.Perm l') : Mirrors p t l' :=
  ⟨fun row => by rw [← hp.mem_iff, h.mem_iff], (hp.map Prod.fst).nodup_iff.mp h.nodup⟩

/-- The rows with the property are the same in two tables. -/
theorem of_iff (h : Mirrors p t l)
    (hi : ∀ k r, p r → (t'.get k = some r ↔ t.get k = some r)) : Mirrors p t' l := by
  refine ⟨fun row => ?_, h.nodup⟩
  rw [h.mem_iff, and_congr_left_iff]
  intro hp
  exact (hi row.1 row.2 hp).symm

/-- A row without the property may be replaced by another one. -/
theorem put_of_not (h : Mirrors p t l) (hold : ∀ r, t.get k = some r → ¬ p r) (hn : ¬ p r) :
    Mirrors p (t.put k r) l := by
  refine h.of_iff fun k' r' hr' => ?_
  rw [get_put]
  split_ifs with hk
  · subst hk
    have hne : r ≠ r' := fun heq => hn (heq ▸ hr')
    simp only [Option.some.injEq, hne, false_iff]
    exact fun hg => hold r' hg hr'
  · rfl

/-- A row without the property may be removed. -/
theorem erase_of_not (h : Mirrors p t l) (hold : ∀ r, t.get k = some r → ¬ p r) :
    Mirrors p (t.erase k) l := by
  refine h.of_iff fun k' r' hr' => ?_
  rw [get_erase]
  split_ifs with hk
  · subst hk
    simp only [false_iff]
    exact fun hg => hold r' hg hr'
  · rfl

theorem key_not_mem (h : Mirrors p t l) (hold : ∀ r, t.get k = some r → ¬ p r) :
    k ∉ l.map Prod.fst := by
  intro hm
  obtain ⟨row, hr, rfl⟩ := List.mem_map.mp hm
  obtain ⟨hg, hp⟩ := (h.mem_iff row).mp hr
  exact hold row.2 hg hp

/-- A row that gets the property joins the list. -/
theorem put (h : Mirrors p t l) (hold : ∀ r, t.get k = some r → ¬ p r) (hnw : p r) :
    Mirrors p (t.put k r) ((k, r) :: l) := by
  refine ⟨fun row => ?_, List.nodup_cons.mpr ⟨h.key_not_mem hold, h.nodup⟩⟩
  rw [List.mem_cons, h.mem_iff, get_put]
  split_ifs with hk
  · have hn : ¬ (t.get row.1 = some row.2 ∧ p row.2) := fun h =>
      hold row.2 (hk ▸ h.1) h.2
    simp only [hn, or_false, Option.some.injEq]
    constructor
    · rintro rfl
      exact ⟨rfl, hnw⟩
    · rintro ⟨rfl, -⟩
      rw [← hk]
  · have hne : row ≠ (k, r) := fun heq => hk (heq ▸ rfl)
    simp [hne]

/-- The rows that the list holds. -/
theorem get (h : Mirrors p t ((k, r) :: l)) : t.get k = some r ∧ p r :=
  (h.mem_iff (k, r)).mp List.mem_cons_self

/-- Changes at a key of the list take the row out of it. -/
theorem tail (h : Mirrors p t ((k, r) :: l)) (hkp : ∀ k', k' ≠ k → t'.get k' = t.get k')
    (hnw : ∀ r', t'.get k = some r' → ¬ p r') : Mirrors p t' l := by
  have hn : k ∉ l.map Prod.fst ∧ (l.map Prod.fst).Nodup := List.nodup_cons.mp h.nodup
  refine ⟨fun row => ?_, hn.2⟩
  by_cases hk : row.1 = k
  · have hnt : row ∉ l := fun hr => hn.1 (List.mem_map.mpr ⟨row, hr, hk⟩)
    simp only [hnt, false_iff, not_and]
    intro hg
    exact hnw row.2 (hk ▸ hg)
  · have hne : row ≠ (k, r) := fun heq => hk (heq ▸ rfl)
    rw [hkp row.1 hk, ← h.mem_iff row, List.mem_cons]
    simp [hne]

theorem tail_erase (h : Mirrors p t ((k, r) :: l)) : Mirrors p (t.erase k) l := by
  refine h.tail (fun k' hk => ?_) fun r' hg => ?_
  · rw [get_erase, if_neg hk]
  · rw [get_erase, if_pos rfl] at hg
    cases hg

theorem tail_put (h : Mirrors p t ((k, r) :: l)) (hn : ¬ p r') : Mirrors p (t.put k r') l := by
  refine h.tail (fun k' hk => ?_) fun r'' hg => ?_
  · rw [get_put, if_neg hk]
  · rw [get_put, if_pos rfl] at hg
    exact Option.some.inj hg ▸ hn

end Mirrors

end Table
