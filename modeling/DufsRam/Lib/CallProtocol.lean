import DufsRam.Lib.Interference

/-!
# Protocols for the calls of a program

A program of calls is in a mode, which says what it may call and what it may be answered. An
answer may change the mode. A program keeps to such a protocol if it makes only allowed calls,
whatever possible answers it gets, and returns only what the mode in which it ends allows.

Results:
* `Prog.Keeps.bind`: a sequence.
* `Prog.returns_call`: what a program returns after a call.
-/

/-- What the calls of a program may be in each mode, how they may be answered, and the mode
    after an answer. -/
structure CallProtocol (C : Type) (R : C → Type) (μ : Type) where
  allows : μ → C → Prop
  answers : μ → (c : C) → R c → Prop
  next : μ → (c : C) → R c → μ

namespace Prog

variable {C : Type} {R : C → Type} {μ α β : Type}

/-- From the mode on, the program keeps to the protocol and returns what `ends` allows. -/
def Keeps (P : CallProtocol C R μ) (ends : μ → α → Prop) : μ → Prog C R α → Prop
  | m, .done a => ends m a
  | m, .call c next => P.allows m c ∧ ∀ r, P.answers m c r → Keeps P ends (P.next m c r) (next r)

variable {P : CallProtocol C R μ} {ends ends' : μ → α → Prop} {m : μ}

namespace Keeps

theorem bind {prog : Prog C R α} {f : α → Prog C R β} {ends' : μ → β → Prop}
    (h : Keeps P ends m prog) (hf : ∀ m a, ends m a → Keeps P ends' m (f a)) :
    Keeps P ends' m (prog.bind f) := by
  induction prog generalizing m with
  | done a => exact hf m a h
  | call c next ih => exact ⟨h.1, fun r hr => ih r (h.2 r hr)⟩

end Keeps

/-- The program can return a result if its calls are answered as `ok` allows. -/
inductive Returns (ok : (c : C) → R c → Prop) : Prog C R α → α → Prop
  | done (a : α) : Returns ok (.done a) a
  | call {c : C} {next : R c → Prog C R α} {r : R c} {a : α} :
      ok c r → Returns ok (next r) a → Returns ok (.call c next) a

theorem returns_done {ok : (c : C) → R c → Prop} {a b : α} :
    Returns ok (.done a : Prog C R α) b ↔ b = a := by
  constructor
  · rintro ⟨⟩
    rfl
  · rintro rfl
    exact .done b

theorem returns_call {ok : (c : C) → R c → Prop} {c : C} {next : R c → Prog C R α} {a : α} :
    Returns ok (.call c next) a ↔ ∃ r, ok c r ∧ Returns ok (next r) a := by
  constructor
  · rintro ⟨⟩
    exact ⟨_, ‹_›, ‹_›⟩
  · rintro ⟨r, hr, h⟩
    exact .call hr h

end Prog
