import Mathlib

/-!
# State machines given by an executable step function

A `Machine` has an initial state and a partial step function: `step s e = some s'`
when event `e` can happen in `s`. Events can be restricted by an environment
assumption `ok`, which may depend on the state.

Results:
* `Machine.Reachable.invariant`: the induction rule for invariants.
* `Machine.Steps.follows`: the induction rule for a part of the state that no step of a run hides.
* `Machine.exists_reachable_of_run`: a computed run gives a reachable state.
* `Machine.Reachable.of_guarded`: the same where the assumption depends on the state.
-/

/-- An initial state and an executable partial step function. -/
structure Machine (σ ε : Type*) where
  init : σ
  step : σ → ε → Option σ

namespace Machine

variable {σ ε : Type*} (M : Machine σ ε) (ok : σ → ε → Prop)

/-- The states reached from the initial one by events that `ok` allows. -/
inductive Reachable : σ → Prop
  | init : Reachable M.init
  | step {s s' : σ} {e : ε} : Reachable s → ok s e → M.step s e = some s' → Reachable s'

/-- `Steps s t`: some run of allowed events leads from `s` to `t`. -/
inductive Steps : σ → σ → Prop
  | refl (s : σ) : Steps s s
  | tail {s t u : σ} {e : ε} : Steps s t → ok t e → M.step t e = some u → Steps s u

variable {M ok}

/-- An invariant holds initially and is kept by every allowed step from a
    reachable state. -/
theorem Reachable.invariant {I : σ → Prop} (init : I M.init)
    (step : ∀ s e s', M.Reachable ok s → I s → ok s e → M.step s e = some s' → I s')
    {s : σ} (h : M.Reachable ok s) : I s := by
  induction h with
  | init => exact init
  | step hs hok hst ih => exact step _ _ _ hs ih hok hst

theorem Reachable.steps {s t : σ} (hs : M.Reachable ok s) (h : M.Steps ok s t) :
    M.Reachable ok t := by
  induction h with
  | refl => exact hs
  | tail _ hok hst ih => exact ih.step hok hst

/-- Fewer restrictions reach more states. -/
theorem Reachable.mono {ok' : σ → ε → Prop} (hok : ∀ s e, ok s e → ok' s e) {s : σ}
    (h : M.Reachable ok s) : M.Reachable ok' s :=
  h.invariant .init fun _ _ _ _ ih hk hs => ih.step (hok _ _ hk) hs

/-- What a partial view of the state shows is followed along a run: if no allowed step hides
    it, it is there at the end, related to what it was at the beginning. -/
theorem Steps.follows {ρ : Type*} (view : σ → Option ρ) (R : ρ → ρ → Prop) (refl : ∀ r, R r r)
    (trans : ∀ r₁ r₂ r₃, R r₁ r₂ → R r₂ r₃ → R r₁ r₃)
    (step : ∀ s e s' r, ok s e → M.step s e = some s' → view s = some r →
      ∃ r', view s' = some r' ∧ R r r')
    {s t : σ} (h : M.Steps ok s t) {r : ρ} (hr : view s = some r) :
    ∃ r', view t = some r' ∧ R r r' := by
  induction h with
  | refl => exact ⟨r, hr, refl r⟩
  | tail _ hok hs ih =>
    obtain ⟨r₁, hr₁, hR₁⟩ := ih
    obtain ⟨r₂, hr₂, hR₂⟩ := step _ _ _ r₁ hok hs hr₁
    exact ⟨r₂, hr₂, trans _ _ _ hR₁ hR₂⟩

theorem Steps.mono {ok' : σ → ε → Prop} (hok : ∀ s e, ok s e → ok' s e) {s t : σ}
    (h : M.Steps ok s t) : M.Steps ok' s t := by
  induction h with
  | refl => exact .refl _
  | tail _ hk hs ih => exact ih.tail (hok _ _ hk) hs

variable (M)

/-- Run a list of events; `none` if one of them cannot happen. -/
def runFrom : σ → List ε → Option σ
  | s, [] => some s
  | s, e :: es => (M.step s e).bind fun s' => runFrom s' es

/-- Run a list of events from the initial state. -/
def run (es : List ε) : Option σ := M.runFrom M.init es

variable {M}

theorem Reachable.runFrom {es : List ε} {s t : σ} (hok : ∀ e ∈ es, ∀ s, ok s e)
    (hs : M.Reachable ok s) (h : M.runFrom s es = some t) : M.Reachable ok t := by
  induction es generalizing s with
  | nil =>
    obtain rfl : s = t := by simpa [Machine.runFrom] using h
    exact hs
  | cons e es ih =>
    obtain ⟨s', hst, hr⟩ := Option.bind_eq_some_iff.mp h
    have hok' : ∀ e' ∈ es, ∀ s, ok s e' := fun e' he' => hok e' (List.mem_cons_of_mem e he')
    exact ih hok' (hs.step (hok e List.mem_cons_self s) hst) hr

theorem reachable_of_run {es : List ε} {s : σ} (hok : ∀ e ∈ es, ∀ s, ok s e)
    (h : M.run es = some s) : M.Reachable ok s :=
  Reachable.init.runFrom hok h

variable (M) in
/-- A run whose last state passes a test. -/
theorem exists_reachable_of_run (es : List ε) (p : σ → Bool) (hok : ∀ e ∈ es, ∀ s, ok s e)
    (h : (M.run es).any p = true) : ∃ s, M.Reachable ok s ∧ p s = true := by
  obtain ⟨s, hs, hp⟩ := (Option.any_eq_true _ _).mp h
  exact ⟨s, reachable_of_run hok hs, hp⟩

/-- The machine that refuses the events a test rejects. -/
def guarded (M : Machine σ ε) (allowed : σ → ε → Bool) : Machine σ ε where
  init := M.init
  step s e := if allowed s e then M.step s e else none

/-- What the guarded machine reaches, the machine reaches by events that pass the test. -/
theorem Reachable.of_guarded {allowed : σ → ε → Bool} (hok : ∀ s e, allowed s e = true → ok s e)
    {s : σ} (h : (M.guarded allowed).Reachable (fun _ _ => True) s) : M.Reachable ok s := by
  refine h.invariant .init ?_
  intro s e s' _ ih _ hs
  simp only [guarded] at hs
  split at hs
  · next ha => exact ih.step (hok s e ha) hs
  · cases hs

end Machine
