import Mathlib

/-!
# Programs of calls under interference

A `Prog` makes calls and goes on as their answers say. Others may change the state before
each call, in any way; what the program itself does is recorded call by call.

Results:
* `Prog.run_call`, `Prog.run_bind`: how a run unfolds.
* `Prog.Shows.call`, `Prog.Shows.skip`: what an answer says about the recorded calls, call by
  call.
* `Prog.guarantee`: what every call of a program does to the state holds of every recorded
  call of a run, whatever the others do.
-/

/-- A program that makes calls `C`, answered by `R`, and returns an `α`. -/
inductive Prog (C : Type) (R : C → Type) (α : Type) : Type
  | done (a : α)
  | call (c : C) (next : R c → Prog C R α)

/-- A call that was made, with the state it found and the state it left. -/
structure Performed (C σ : Type) where
  call : C
  before : σ
  after : σ

/-- The result of a run. -/
structure Outcome (C σ α : Type) where
  answer : α
  state : σ
  log : List (Performed C σ)

namespace Prog

variable {C : Type} {R : C → Type} {α β σ : Type}

/-- Go on with the result of a program. -/
def bind : Prog C R α → (α → Prog C R β) → Prog C R β
  | .done a, f => f a
  | .call c next, f => .call c fun r => (next r).bind f

/-- Run a program from its `n`-th call on: `env n` happens before that call, and `exec n` is
    what the call does. -/
def run (exec : ℕ → (c : C) → σ → R c × σ) (env : ℕ → σ → σ) :
    ℕ → Prog C R α → σ → Outcome C σ α
  | _, .done a, s => ⟨a, s, []⟩
  | n, .call c next, s =>
    let before := env n s
    let (r, after) := exec n c before
    let rest := run exec env (n + 1) (next r) after
    ⟨rest.answer, rest.state, ⟨c, before, after⟩ :: rest.log⟩

variable {exec : ℕ → (c : C) → σ → R c × σ} {env : ℕ → σ → σ}

@[simp] theorem run_done (n : ℕ) (a : α) (s : σ) :
    run exec env n (.done a : Prog C R α) s = ⟨a, s, []⟩ := rfl

theorem run_call (n : ℕ) (c : C) (next : R c → Prog C R α) (s : σ) :
    run exec env n (.call c next) s =
      let out := exec n c (env n s)
      let rest := run exec env (n + 1) (next out.1) out.2
      ⟨rest.answer, rest.state, ⟨c, env n s, out.2⟩ :: rest.log⟩ := rfl

/-- A sequence runs its parts one after the other. -/
theorem run_bind (n : ℕ) (p : Prog C R α) (f : α → Prog C R β) (s : σ) :
    run exec env n (p.bind f) s =
      let first := run exec env n p s
      let rest := run exec env (n + first.log.length) (f first.answer) first.state
      ⟨rest.answer, rest.state, first.log ++ rest.log⟩ := by
  induction p generalizing n s with
  | done a => rfl
  | call c next ih =>
    simp only [bind, run_call, ih, List.length_cons, List.cons_append]
    rw [show n + 1 + (run exec env (n + 1) (next (exec n c (env n s)).1)
      (exec n c (env n s)).2).log.length = n + ((run exec env (n + 1)
        (next (exec n c (env n s)).1) (exec n c (env n s)).2).log.length + 1) by omega]

/-- Every call that the program can make satisfies `p`. -/
def Calls (p : C → Prop) : Prog C R α → Prop
  | .done _ => True
  | .call c next => p c ∧ ∀ r, (next r).Calls p

theorem Calls.bind {p : C → Prop} {prog : Prog C R α} {f : α → Prog C R β} (h : prog.Calls p)
    (hf : ∀ a, (f a).Calls p) : (prog.bind f).Calls p := by
  induction prog with
  | done a => exact hf a
  | call c next ih => exact ⟨h.1, fun r => ih r (h.2 r)⟩

/-- What the calls of a program do to the state holds of every call of a run. -/
theorem guarantee {p : C → Prop} {G : σ → σ → Prop}
    (hex : ∀ n c s, p c → G s (exec n c s).2) {prog : Prog C R α} (h : prog.Calls p) (n : ℕ)
    (s : σ) : ∀ e ∈ (run exec env n prog s).log, G e.before e.after := by
  induction prog generalizing n s with
  | done a =>
    intro e he
    simp at he
  | call c next ih =>
    intro e he
    obtain rfl | hr := List.mem_cons.mp he
    · exact hex n c (env n s) h.1
    · exact ih _ (h.2 _) (n + 1) _ e hr

variable (exec env) in
/-- When a run returns an answer in `accept`, its calls satisfy `Q`. -/
def Shows (accept : α → Prop) (Q : List (Performed C σ) → Prop) (prog : Prog C R α) : Prop :=
  ∀ n s, accept (run exec env n prog s).answer → Q (run exec env n prog s).log

namespace Shows

variable {accept : α → Prop} {Q : List (Performed C σ) → Prop} {c : C} {next : R c → Prog C R α}

theorem done {a : α} (h : ¬ accept a) : Shows exec env accept Q (.done a) :=
  fun _ _ ha => absurd ha h

theorem of_all {prog : Prog C R α} (h : ∀ log, Q log) : Shows exec env accept Q prog :=
  fun _ _ _ => h _

theorem mono {Q' : List (Performed C σ) → Prop} {prog : Prog C R α}
    (h : Shows exec env accept Q prog) (hQ : ∀ log, Q log → Q' log) :
    Shows exec env accept Q' prog :=
  fun n s ha => hQ _ (h n s ha)

/-- After a call, the rest has to show what is still missing. -/
theorem call (h : ∀ n s, Shows exec env accept
      (fun log => Q (⟨c, env n s, (exec n c (env n s)).2⟩ :: log)) (next (exec n c (env n s)).1)) :
    Shows exec env accept Q (.call c next) :=
  fun n s ha => h n s (n + 1) _ ha

/-- A call that does not count. -/
theorem skip (hc : ∀ e log, Q log → Q (e :: log)) (h : ∀ r, Shows exec env accept Q (next r)) :
    Shows exec env accept Q (.call c next) :=
  .call fun _ _ => (h _).mono (hc _)

end Shows

end Prog
