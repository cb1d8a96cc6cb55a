import Mathlib

/-!
# Work between two checks

A log records, newest first, the operations of a program and the points at which it checked
whether to go on. It is metered by `bound` if no stretch of the log without a check is longer
than `bound`.

Results:
* `Metered.cons`: what a new entry needs.
* `Metered.count_le`: no operation happens more than `bound` times between two checks.
-/

variable {ω : Type*} [DecidableEq ω]

/-- The number of operations since the last check. -/
def sinceCheck (check : ω) (log : List ω) : ℕ :=
  (log.takeWhile fun op => decide (op ≠ check)).length

/-- Every stretch of the log without a check has at most `bound` operations. -/
def Metered (check : ω) (bound : ℕ) (log : List ω) : Prop :=
  ∀ stretch, stretch <:+: log → check ∉ stretch → stretch.length ≤ bound

variable {check op : ω} {bound : ℕ} {log : List ω}

@[simp] theorem sinceCheck_check : sinceCheck check (check :: log) = 0 := by
  simp [sinceCheck]

@[simp] theorem sinceCheck_op (h : op ≠ check) :
    sinceCheck check (op :: log) = sinceCheck check log + 1 := by
  simp [sinceCheck, h]

omit [DecidableEq ω] in
theorem Metered.nil : Metered check bound [] := by
  intro stretch hs _
  rw [List.infix_nil.mp hs]
  exact Nat.zero_le bound

/-- A stretch at the newest end without a check is part of the work since the last one. -/
theorem length_le_sinceCheck {stretch : List ω} (hf : stretch <+: log)
    (hc : check ∉ stretch) : stretch.length ≤ sinceCheck check log := by
  induction stretch generalizing log with
  | nil => exact Nat.zero_le _
  | cons op stretch ih =>
    obtain ⟨rest, rfl⟩ := hf
    rw [List.mem_cons, not_or] at hc
    rw [List.cons_append, sinceCheck_op (Ne.symm hc.1), List.length_cons]
    exact Nat.succ_le_succ (ih (List.prefix_append stretch rest) hc.2)

/-- A log stays metered if the work since the last check stays within the bound. -/
theorem Metered.cons (h : Metered check bound log)
    (hsn : sinceCheck check (op :: log) ≤ bound) : Metered check bound (op :: log) := by
  intro stretch hs hc
  rcases List.infix_cons_iff.mp hs with hf | hi
  · exact (length_le_sinceCheck hf hc).trans hsn
  · exact h stretch hi hc

theorem Metered.count_le (h : Metered check bound log) {stretch : List ω}
    (hs : stretch <:+: log) (hc : check ∉ stretch) (op : ω) :
    stretch.count op ≤ bound :=
  List.count_le_length.trans (h stretch hs hc)
