import Mathlib

/-!
# Bisection with a fallible probe

A probe is known to succeed at `lo` and to fail at `hi`. Halving the interval between
them ends at two neighbours of which the lower succeeds and the upper fails. Failures
are soft, which move the upper end, or hard, which abort the search.

A search that tries everything from the upper end down, `descend`, finds the last success. The
bisection finds it too exactly if it is not led astray on its way.

Results:
* `bisect_spec`: what a search that returns has found.
* `bisect_eq_iff`: when a bisection finds the last success.
-/

namespace Bisect

variable {ε α : Type*} (probe : ℕ → Except ε α) (soft : ε → Bool)

/-- At most `fuel` probes; `a` is the value probed at `lo`. -/
def bisect : ℕ → ℕ → ℕ → α → Except ε (α × ℕ)
  | 0, lo, _, a => .ok (a, lo)
  | fuel + 1, lo, hi, a =>
    if lo + 1 < hi then
      let mid := lo + (hi - lo) / 2
      match probe mid with
      | .ok b => bisect fuel mid hi b
      | .error e => if soft e then bisect fuel lo mid a else .error e
    else .ok (a, lo)

/-- Probe every number from `n` down to one; `a` is the value at zero. -/
def descend : ℕ → α → Except ε (α × ℕ)
  | 0, a => .ok (a, 0)
  | n + 1, a =>
    match probe (n + 1) with
    | .ok b => .ok (b, n + 1)
    | .error e => if soft e then descend n a else .error e

/-- The midpoints of a bisection that ends at `n`. -/
def midpoints : ℕ → ℕ → ℕ → ℕ → List ℕ
  | 0, _, _, _ => []
  | fuel + 1, lo, hi, n =>
    if lo + 1 < hi then
      let mid := lo + (hi - lo) / 2
      mid :: if mid ≤ n then midpoints fuel mid hi n else midpoints fuel lo mid n
    else []

variable {probe soft}

/-- The invariant is that `lo` succeeds and `hi` fails. -/
theorem bisect_spec {fuel lo hi n : ℕ} {a b : α} (hfl : hi ≤ lo + fuel + 1) (hlt : lo < hi)
    (hlo : probe lo = .ok a) (hhi : ∃ e, probe hi = .error e)
    (h : bisect probe soft fuel lo hi a = .ok (b, n)) :
    n < hi ∧ probe n = .ok b ∧ ∃ e, probe (n + 1) = .error e := by
  induction fuel generalizing lo hi a with
  | zero =>
    obtain ⟨rfl, rfl⟩ := Prod.mk.inj (Except.ok.inj h)
    have : hi = lo + 1 := by omega
    exact ⟨hlt, hlo, this ▸ hhi⟩
  | succ fuel ih =>
    rw [bisect] at h
    split_ifs at h with hg
    · set mid := lo + (hi - lo) / 2
      have hm : lo < mid ∧ mid < hi := by omega
      cases hp : probe mid with
      | ok c =>
        simp only [hp] at h
        exact ih (by omega) hm.2 hp hhi h
      | error e =>
        simp only [hp] at h
        split_ifs at h
        have hf := ih (by omega) hm.1 hlo ⟨e, hp⟩ h
        exact ⟨hf.1.trans hm.2, hf.2⟩
    · obtain ⟨rfl, rfl⟩ := Prod.mk.inj (Except.ok.inj h)
      have : hi = lo + 1 := by omega
      exact ⟨hlt, hlo, this ▸ hhi⟩

theorem bisect_lt {fuel lo hi n : ℕ} {a b : α} (hlt : lo < hi)
    (h : bisect probe soft fuel lo hi a = .ok (b, n)) : n < hi := by
  induction fuel generalizing lo hi a with
  | zero =>
    obtain ⟨rfl, rfl⟩ := Prod.mk.inj (Except.ok.inj h)
    exact hlt
  | succ fuel ih =>
    rw [bisect] at h
    split_ifs at h with hg
    · have hm : lo < lo + (hi - lo) / 2 ∧ lo + (hi - lo) / 2 < hi := by omega
      simp only at h
      split at h
      · exact ih hm.2 h
      · split_ifs at h
        exact (ih hm.1 h).trans hm.2
    · obtain ⟨rfl, rfl⟩ := Prod.mk.inj (Except.ok.inj h)
      exact hlt

/-- Where `n` is the last success, a bisection ends there exactly if no midpoint before it fails:
    the first one that does cuts `n` off. -/
theorem bisect_eq_iff {fuel lo hi n : ℕ} {a b : α} (hfl : hi ≤ lo + fuel + 1) (hle : lo ≤ n)
    (hlt : n < hi) (hlo : probe lo = .ok a) (hn : probe n = .ok b)
    (hf : ∀ m, n < m → m < hi → ∃ e, probe m = .error e)
    (hs : ∀ m e, m < hi → probe m = .error e → soft e = true) :
    bisect probe soft fuel lo hi a = .ok (b, n) ↔
      ∀ m ∈ midpoints fuel lo hi n, m ≤ n → ∃ c, probe m = .ok c := by
  have hh {lo : ℕ} {a : α} (hlo : probe lo = .ok a) (h : lo = n) :
      (.ok (a, lo) : Except ε (α × ℕ)) = .ok (b, n) := by
    subst h
    rw [Except.ok.inj (hlo.symm.trans hn)]
  induction fuel generalizing lo hi a with
  | zero =>
    exact ⟨fun _ _ hm => absurd hm List.not_mem_nil, fun _ => hh hlo (by omega)⟩
  | succ fuel ih =>
    rw [bisect, midpoints]
    by_cases hg : lo + 1 < hi
    · simp only [if_pos hg]
      set mid := lo + (hi - lo) / 2
      have hmd : lo < mid ∧ mid < hi := by omega
      by_cases hb : mid ≤ n
      · rw [if_pos hb, List.forall_mem_cons]
        cases hp : probe mid with
        | ok c =>
          refine (ih (by omega) hb hlt hp hf hs).trans ?_
          exact ⟨fun h => ⟨fun _ => ⟨c, rfl⟩, h⟩, fun h => h.2⟩
        | error e =>
          simp only [hs mid e hmd.2 hp, if_true]
          constructor
          · intro h
            exact absurd (bisect_lt hmd.1 h) (by omega)
          · intro h
            obtain ⟨c, hc⟩ := h.1 hb
            exact nomatch hc
      · obtain ⟨e, he⟩ := hf mid (by omega) hmd.2
        rw [if_neg hb, List.forall_mem_cons]
        simp only [he, hs mid e hmd.2 he, if_true]
        refine (ih (by omega) hle (by omega) hlo (fun m hm hm' => hf m hm (hm'.trans hmd.2))
          fun m e hm => hs m e (hm.trans hmd.2)).trans ?_
        exact ⟨fun h => ⟨fun hm => absurd hm hb, h⟩, fun h => h.2⟩
    · simp only [if_neg hg]
      exact ⟨fun _ _ hm => absurd hm List.not_mem_nil, fun _ => hh hlo (by omega)⟩

theorem lt_of_mem_midpoints {fuel lo hi n m : ℕ} (h : m ∈ midpoints fuel lo hi n) : lo < m := by
  induction fuel generalizing lo hi with
  | zero => exact absurd h List.not_mem_nil
  | succ fuel ih =>
    rw [midpoints] at h
    split_ifs at h with hg
    · obtain rfl | h := List.mem_cons.mp h
      · omega
      split_ifs at h
      · have := ih h
        omega
      · exact ih h
    · exact absurd h List.not_mem_nil

/-- The last success is what a search from above finds. -/
theorem descend_eq_ok {k n : ℕ} {a b : α} (hle : n ≤ k) (hz : probe 0 = .ok a)
    (hn : probe n = .ok b)
    (hf : ∀ m, n < m → m ≤ k → ∃ e, probe m = .error e ∧ soft e = true) :
    descend probe soft k a = .ok (b, n) := by
  induction k with
  | zero =>
    obtain rfl : n = 0 := by omega
    rw [descend, Except.ok.inj (hz.symm.trans hn)]
  | succ k ih =>
    rw [descend]
    by_cases hl : n = k + 1
    · subst hl
      rw [hn]
    · obtain ⟨e, he, hs⟩ := hf (k + 1) (by omega) le_rfl
      simp only [he, hs, if_true]
      exact ih (by omega) fun m hm hm' => hf m hm (by omega)

/-- There is a last success below a number. -/
theorem exists_last_success {a : α} (hz : probe 0 = .ok a) (k : ℕ) :
    ∃ n b, n ≤ k ∧ probe n = .ok b ∧ ∀ m, n < m → m ≤ k → ∃ e, probe m = .error e := by
  induction k with
  | zero => exact ⟨0, a, le_rfl, hz, fun m hm hm' => absurd hm' (by omega)⟩
  | succ k ih =>
    cases hp : probe (k + 1) with
    | ok b => exact ⟨k + 1, b, le_rfl, hp, fun m hm hm' => absurd hm' (by omega)⟩
    | error e =>
      obtain ⟨n, b, hle, hn, hf⟩ := ih
      refine ⟨n, b, by omega, hn, fun m hm hm' => ?_⟩
      by_cases hl : m = k + 1
      · exact ⟨e, hl ▸ hp⟩
      · exact hf m hm (by omega)

end Bisect
