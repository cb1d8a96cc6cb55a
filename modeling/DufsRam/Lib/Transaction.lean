import DufsRam.Lib.Table

/-!
# Transactions over constrained tables

A `Constrained` table carries the proof that its rows pass the checks of its schema. Deleting rows
cannot break a check; an update is refused as a whole when one of the new rows fails it. A
`transaction` runs statements in order, and leaves the state as it was when one of them fails or
when the engine fails at its begin, at a statement or at its commit.

Results:
* `Table.updateWhere_eq_self`, `Table.deleteWhere_eq_self`: a statement that selects no row.
* `Constrained.update_eq_some`: an update whose new rows pass the checks is not refused.
* `transaction_all_or_nothing`: a transaction fails and changes nothing, or does all it does when
  the engine does not fail.
-/

namespace Table

variable {κ ρ : Type*}

/-- An `UPDATE` that selects no row changes nothing. -/
theorem updateWhere_eq_self [DecidableEq κ] {t : Table κ ρ} {p : κ → ρ → Bool} (f : ρ → ρ)
    (h : ∀ k r, t.get k = some r → p k r = false) : t.updateWhere p f = t := by
  have hr : (t.updateWhere p f).rows = t.rows := by
    show t.rows.map (fun row => (row.1, if p row.1 row.2 then f row.2 else row.2)) = t.rows
    conv_rhs => rw [← List.map_id t.rows]
    apply List.map_congr_left
    intro row hrw
    rw [h row.1 row.2 (get_eq_some_iff.mpr hrw)]
    rfl
  cases t
  simpa only [updateWhere, mapRows, mk.injEq] using hr

/-- A `DELETE` that selects no row changes nothing. -/
theorem deleteWhere_eq_self [DecidableEq κ] {t : Table κ ρ} {p : κ → ρ → Bool}
    (h : ∀ k r, t.get k = some r → p k r = false) : t.deleteWhere p = t := by
  have hr : (t.deleteWhere p).rows = t.rows := by
    apply List.filter_eq_self.mpr
    intro row hrw
    rw [h row.1 row.2 (get_eq_some_iff.mpr hrw)]
    rfl
  cases t
  simpa only [deleteWhere, mk.injEq] using hr

end Table

/-- A table whose rows pass the checks of its schema. -/
structure Constrained (κ ρ : Type*) [DecidableEq κ] (checks : κ → ρ → Bool) where
  table : Table κ ρ
  passes : ∀ k r, table.get k = some r → checks k r = true

namespace Constrained

variable {κ ρ : Type*} [DecidableEq κ] {checks : κ → ρ → Bool}

@[ext] theorem ext {t u : Constrained κ ρ checks} (h : t.table = u.table) : t = u := by
  cases t
  cases u
  simpa using h

/-- The row stored under a key. -/
def get (t : Constrained κ ρ checks) (k : κ) : Option ρ := t.table.get k

/-- `DELETE FROM … WHERE p`. -/
def delete (t : Constrained κ ρ checks) (p : ρ → Bool) : Constrained κ ρ checks where
  table := t.table.deleteWhere fun _ r => p r
  passes k r h := by
    rw [Table.get_deleteWhere, Option.bind_eq_some_iff] at h
    obtain ⟨old, hold, hkept⟩ := h
    have hsame : old = r := by
      split at hkept
      · cases hkept
      · exact Option.some.inj hkept
    exact t.passes k r (hsame ▸ hold)

theorem passes_updateWhere (t : Constrained κ ρ checks) {p : ρ → Bool} {f : ρ → ρ}
    (h : (t.table.any fun k r => p r && !checks k (f r)) = false) (k : κ) (r : ρ)
    (hr : (t.table.updateWhere (fun _ r => p r) f).get k = some r) : checks k r = true := by
  rw [Table.get_updateWhere, Option.map_eq_some_iff] at hr
  obtain ⟨old, hold, rfl⟩ := hr
  have hps := Table.any_eq_false_iff.mp h k old hold
  cases hp : p old with
  | false => simpa [hp] using t.passes k old hold
  | true => simpa [hp] using hps

/-- `UPDATE … SET f WHERE p`, refused when one of the new rows fails a check. -/
def update (t : Constrained κ ρ checks) (p : ρ → Bool) (f : ρ → ρ) :
    Option (Constrained κ ρ checks) :=
  if h : (t.table.any fun k r => p r && !checks k (f r)) = false then
    some ⟨t.table.updateWhere (fun _ r => p r) f, t.passes_updateWhere h⟩
  else none

/-- The update `f` keeps the checks of the rows `p` selects. -/
def Keeps (checks : κ → ρ → Bool) (p : ρ → Bool) (f : ρ → ρ) : Prop :=
  ∀ k r, checks k r = true → p r = true → checks k (f r) = true

theorem any_eq_false_of_keeps {p : ρ → Bool} {f : ρ → ρ} (h : Keeps checks p f)
    (t : Constrained κ ρ checks) : (t.table.any fun k r => p r && !checks k (f r)) = false := by
  rw [Table.any_eq_false_iff]
  intro k r hr
  cases hp : p r with
  | false => rfl
  | true =>
    rw [h k r (t.passes k r hr) hp]
    rfl

/-- An update that keeps the checks, as the table it leaves. -/
def updated (t : Constrained κ ρ checks) (p : ρ → Bool) (f : ρ → ρ) (h : Keeps checks p f) :
    Constrained κ ρ checks :=
  ⟨t.table.updateWhere (fun _ r => p r) f, t.passes_updateWhere (any_eq_false_of_keeps h t)⟩

/-- An update that keeps the checks is not refused. -/
theorem update_eq_some {p : ρ → Bool} {f : ρ → ρ} (h : Keeps checks p f)
    (t : Constrained κ ρ checks) : t.update p f = some (t.updated p f h) :=
  dif_pos (any_eq_false_of_keeps h t)

@[simp] theorem get_delete (t : Constrained κ ρ checks) (p : ρ → Bool) (k : κ) :
    (t.delete p).get k = (t.get k).filter fun r => !p r := by
  show (t.table.deleteWhere fun _ r => p r).get k = (t.table.get k).filter fun r => !p r
  rw [Table.get_deleteWhere]
  cases t.table.get k with
  | none => rfl
  | some r => cases hp : p r <;> simp [Option.filter, hp]

@[simp] theorem get_updated (t : Constrained κ ρ checks) (p : ρ → Bool) (f : ρ → ρ)
    (h : Keeps checks p f) (k : κ) :
    (t.updated p f h).get k = (t.get k).map fun r => if p r then f r else r :=
  Table.get_updateWhere _ _ _ _

theorem delete_eq_self {t : Constrained κ ρ checks} {p : ρ → Bool}
    (h : ∀ k r, t.get k = some r → p r = false) : t.delete p = t :=
  ext (Table.deleteWhere_eq_self h)

theorem updated_eq_self {t : Constrained κ ρ checks} {p : ρ → Bool} {f : ρ → ρ}
    (hk : Keeps checks p f) (h : ∀ k r, t.get k = some r → p r = false) :
    t.updated p f hk = t :=
  ext (Table.updateWhere_eq_self f h)

end Constrained

section Transaction

variable {σ ε : Type*}

/-- The statements of a transaction from the `k`-th on, and its commit. The engine may fail at each
    of them. -/
def runStatements (faults : ℕ → Option ε) : ℕ → List (σ → Except ε σ) → σ → Except ε σ
  | k, [], s =>
    match faults k with
    | some e => .error e
    | none => .ok s
  | k, statement :: rest, s =>
    match faults k with
    | some e => .error e
    | none =>
      match statement s with
      | .error e => .error e
      | .ok s' => runStatements faults (k + 1) rest s'

/-- A transaction: `BEGIN`, the statements, `COMMIT`. The state changes with the commit only. -/
def transaction (faults : ℕ → Option ε) (statements : List (σ → Except ε σ)) (s : σ) :
    Except ε Unit × σ :=
  match runStatements faults 0 (.ok :: statements) s with
  | .error e => (.error e, s)
  | .ok s' => (.ok (), s')

/-- The engine does not fail. -/
def noFaults : ℕ → Option ε := fun _ => none

/-- The statements succeed when the engine does not fail and they succeed on their own. -/
theorem runStatements_eq_ok_iff {fs : ℕ → Option ε} {k : ℕ}
    {stmts : List (σ → Except ε σ)} {s s' : σ} :
    runStatements fs k stmts s = .ok s' ↔
      (∀ i, i ≤ stmts.length → fs (k + i) = none) ∧
        stmts.foldlM (fun s stmt => stmt s) s = .ok s' := by
  induction stmts generalizing k s with
  | nil =>
    rw [runStatements]
    cases hf : fs k with
    | none => simp [hf, pure, Except.pure]
    | some e => simp [hf]
  | cons stmt rest ih =>
    rw [runStatements, List.foldlM_cons]
    have hfl : (∀ i, i ≤ (stmt :: rest).length → fs (k + i) = none) ↔
        fs k = none ∧ ∀ i, i ≤ rest.length → fs (k + 1 + i) = none := by
      rw [List.length_cons]
      constructor
      · intro h
        refine ⟨h 0 (by omega), fun i hi => ?_⟩
        rw [show k + 1 + i = k + (i + 1) by omega]
        exact h (i + 1) (by omega)
      · rintro ⟨hz, hn⟩ i hi
        cases i with
        | zero => exact hz
        | succ i =>
          rw [show k + (i + 1) = k + 1 + i by omega]
          exact hn i (by omega)
    rw [hfl]
    cases hf : fs k with
    | some e => simp
    | none =>
      cases stmt s with
      | error e => simp [bind, Except.bind]
      | ok next => simpa [bind, Except.bind] using ih

/-- A transaction commits when the engine does not fail and every statement succeeds. -/
theorem transaction_eq_ok_iff {fs : ℕ → Option ε} {stmts : List (σ → Except ε σ)} {s s' : σ} :
    transaction fs stmts s = (.ok (), s') ↔
      (∀ i, i ≤ stmts.length + 1 → fs i = none) ∧
        stmts.foldlM (fun s stmt => stmt s) s = .ok s' := by
  have hr : runStatements fs 0 (.ok :: stmts) s = .ok s' ↔
      (∀ i, i ≤ stmts.length + 1 → fs i = none) ∧
        stmts.foldlM (fun s stmt => stmt s) s = .ok s' := by
    rw [runStatements_eq_ok_iff]
    simp [bind, Except.bind]
  rw [← hr, transaction]
  cases runStatements fs 0 (.ok :: stmts) s with
  | error e => simp
  | ok next => simp

/-- A transaction fails and changes nothing, or it is the transaction without a fault. -/
theorem transaction_all_or_nothing (faults : ℕ → Option ε) (stmts : List (σ → Except ε σ)) (s : σ) :
    (∃ e, transaction faults stmts s = (.error e, s)) ∨
      (∃ s', transaction faults stmts s = (.ok (), s')) ∧
        transaction faults stmts s = transaction noFaults stmts s := by
  cases h : runStatements faults 0 (.ok :: stmts) s with
  | error e =>
    refine .inl ⟨e, ?_⟩
    rw [transaction, h]
  | ok s' =>
    have hok : transaction faults stmts s = (.ok (), s') := by rw [transaction, h]
    refine .inr ⟨⟨s', hok⟩, ?_⟩
    rw [hok]
    exact (transaction_eq_ok_iff.mpr ⟨fun _ _ => rfl, (transaction_eq_ok_iff.mp hok).2⟩).symm

end Transaction
