import Mathlib

/-!
# Programs with a state and errors, and their triples

`Effect ε σ α` is a program that works on a state `σ` and returns an `α` or stops with an
error. The state that it leaves is known in both cases. `Triple P x Q E` says what the program
leaves from every state in `P`: a result and a state in `Q`, or an error and a state in `E`.

Results:
* `Triple.pure`, `Triple.throw`: the rules of a result and of an error.
* `Triple.bind`: the rule of composition.
* `Triple.mono`, `Triple.assuming`: weakening, and facts of the precondition.
-/

/-- A program over a state `σ` that may stop with an error `ε`. -/
abbrev Effect (ε σ α : Type) := ExceptT ε (StateM σ) α

namespace Effect

variable {ε σ α β : Type}

/-- The result and the state that a program leaves. -/
def exec (x : Effect ε σ α) (s : σ) : Except ε α × σ :=
  x.run.run s

@[simp] theorem exec_pure (a : α) (s : σ) : exec (pure a : Effect ε σ α) s = (.ok a, s) := rfl

@[simp] theorem exec_throw (e : ε) (s : σ) : exec (throw e : Effect ε σ α) s = (.error e, s) := rfl

@[simp] theorem exec_get (s : σ) : exec (get : Effect ε σ σ) s = (.ok s, s) := rfl

@[simp] theorem exec_modify (f : σ → σ) (s : σ) :
    exec (modify f : Effect ε σ PUnit) s = (.ok ⟨⟩, f s) := rfl

theorem exec_bind (x : Effect ε σ α) (f : α → Effect ε σ β) (s : σ) : exec (x >>= f) s =
      match exec x s with
      | (.ok a, s') => exec (f a) s'
      | (.error e, s') => (.error e, s') := by
  unfold exec
  rw [ExceptT.run_bind, StateT.run_bind]
  rcases x.run.run s with ⟨a | e, s'⟩ <;> rfl

/-- A result and a state in `Q`, or an error and a state in `E`. -/
def Leaves (Q : α → σ → Prop) (E : ε → σ → Prop) : Except ε α × σ → Prop
  | (.ok a, s) => Q a s
  | (.error e, s) => E e s

/-- From every state in `P` the program leaves a result in `Q` or an error in `E`. -/
def Triple (P : σ → Prop) (x : Effect ε σ α) (Q : α → σ → Prop) (E : ε → σ → Prop) : Prop :=
  ∀ s, P s → Leaves Q E (exec x s)

variable {P P' : σ → Prop} {Q Q' : α → σ → Prop} {E E' : ε → σ → Prop} {x : Effect ε σ α}

theorem Triple.mono (h : Triple P x Q E) (hpr : ∀ s, P' s → P s) (hp : ∀ a s, Q a s → Q' a s)
    (he : ∀ e s, E e s → E' e s) : Triple P' x Q' E' := by
  intro s hs
  have hc := h s (hpr s hs)
  rcases hex : exec x s with ⟨a | e, s'⟩ <;> rw [hex] at hc
  · exact he _ _ hc
  · exact hp _ _ hc

/-- A fact about values that the precondition carries may be assumed. -/
theorem Triple.assuming {p : Prop} (h : p → Triple P x Q E) : Triple (fun s => P s ∧ p) x Q E :=
  fun s hs => h hs.2 s hs.1

theorem Triple.pure {a : α} (h : ∀ s, P s → Q a s) : Triple P (pure a : Effect ε σ α) Q E :=
  fun s hs => h s hs

theorem Triple.throw {e : ε} (h : ∀ s, P s → E e s) : Triple P (throw e : Effect ε σ α) Q E :=
  fun s hs => h s hs

/-- What the first part leaves is what the second part starts from. -/
theorem Triple.bind {f : α → Effect ε σ β} {R : β → σ → Prop} (hx : Triple P x Q E)
    (hf : ∀ a, Triple (Q a) (f a) R E) : Triple P (x >>= f) R E := by
  intro s hs
  have hc := hx s hs
  rw [exec_bind]
  rcases he : exec x s with ⟨a | e, s'⟩ <;> rw [he] at hc
  · exact hc
  · exact hf _ s' hc

end Effect
