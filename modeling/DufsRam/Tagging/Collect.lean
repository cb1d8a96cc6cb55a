import DufsRam.Listing.Budget

/-!
# The memory budget of a tag scan

Model of `collect_with_budget` (`tagging/scan.rs`, lines 36-180) as far as it counts bytes. A path or
a sample is its heap bytes. What the clock, the allocator and each call of the file system answer
is an input of the step, so that the runs cover every directory tree; an error ends the run.

Results:
* `collect_within_budget`: in every state of a scan the counter is what is held, fits in the budget
  and covers the directory in use.
-/

namespace DufsRam.Tagging

open Listing

/-- The sizes of `PathBuf` and `Sample` and the limits of a scan. -/
structure ScanLimits where
  pathSize : ℕ
  sampleSize : ℕ
  maxEntries : ℕ
  maxBytes : ℕ

/-- What the allocator answers: `none` if it fails, or the slots beyond those asked for. -/
abbrev Grant := Option ℕ

/-- `push_budgeted` (lines 36-71): the vector and `retained_bytes` after a push. An overflow of the
    counter is beyond every budget. -/
def pushBudgeted (size : ℕ) (values : Buffer ℕ) (heapBytes retainedBytes maxBytes : ℕ)
    (grant : Grant) : Option (Buffer ℕ × ℕ) :=
  let extra := if values.items.length = values.capacity then max values.capacity 8 else 0
  if maxBytes < retainedBytes + heapBytes + extra * size then none
  else
    let reserved := if extra = 0 then some values.capacity
      else grant.map fun beyond => values.capacity + extra + beyond
    reserved.bind fun capacity =>
      let next := retainedBytes + heapBytes + (capacity - values.capacity) * size
      if maxBytes < next then none
      else some (Buffer.push size ⟨values.items, capacity⟩ heapBytes, next)

/-- The variables of `collect_with_budget`; `current` is the directory in use. -/
structure Scan where
  samples : Buffer ℕ
  stack : Buffer ℕ
  retainedBytes : ℕ
  seen : ℕ
  current : Option ℕ

/-- What a counted entry turns out to be (lines 130-173). -/
inductive Entry
  | skipped
  | directory (pathBytes : ℕ) (grant : Grant)
  | file (sampleBytes : ℕ) (grant : Grant)

/-- The steps of the two loops. -/
inductive ScanEvent
  | start (grant : Grant)
  | pop
  | ignore
  | entry (entry : Entry)
  | close

namespace Scan

/-- A directory is put on the stack (lines 85-91 and 147-148). -/
def pushDirectory (c : ScanLimits) (s : Scan) (bytes : ℕ) (grant : Grant) : Option Scan :=
  (pushBudgeted c.pathSize s.stack bytes s.retainedBytes c.maxBytes grant).map fun p =>
    { s with stack := p.1, retainedBytes := p.2 }

/-- An entry is counted and kept (lines 126-173). -/
def visit (c : ScanLimits) (s : Scan) (entry : Entry) : Option Scan :=
  let s := { s with seen := s.seen + 1 }
  if c.maxEntries < s.seen then none
  else
    match entry with
    | .skipped => some s
    | .directory bytes grant => s.pushDirectory c bytes grant
    | .file bytes grant =>
      (pushBudgeted c.sampleSize s.samples bytes s.retainedBytes c.maxBytes grant).map fun p =>
        { s with samples := p.1, retainedBytes := p.2 }

/-- One step; `ignore` reads an entry that is not counted (lines 119-125), and `close` subtracts
    without a check (line 177). -/
def step (c : ScanLimits) (s : Scan) : ScanEvent → Option Scan
  | .start grant => if s.seen = 0 ∧ s.stack.capacity = 0 then s.pushDirectory c 0 grant else none
  | .pop =>
    match s.current, s.stack.items with
    | none, bytes :: rest =>
      some { s with stack := ⟨rest, s.stack.capacity⟩, current := some bytes }
    | _, _ => none
  | .ignore => s.current.map fun _ => s
  | .entry entry => s.current.bind fun _ => s.visit c entry
  | .close => s.current.map fun bytes =>
      { s with retainedBytes := s.retainedBytes - bytes, current := none }

/-- The scan before its first push. -/
def machine (c : ScanLimits) : Machine Scan ScanEvent := ⟨⟨⟨[], 0⟩, ⟨[], 0⟩, 0, 0, none⟩, step c⟩

/-- The heap bytes of what is held and the element bytes of both buffers. -/
def heldBytes (c : ScanLimits) (s : Scan) : ℕ :=
  s.stack.items.sum + s.current.getD 0 + s.samples.items.sum +
    (s.stack.capacity * c.pathSize + s.samples.capacity * c.sampleSize)

/-- The counter is exact and fits; no vector is longer than its buffer. -/
structure Balanced (c : ScanLimits) (s : Scan) : Prop where
  exact : s.retainedBytes = s.heldBytes c
  within : s.retainedBytes ≤ c.maxBytes
  stack : s.stack.items.length ≤ s.stack.capacity
  samples : s.samples.items.length ≤ s.samples.capacity

end Scan

variable {c : ScanLimits} {s s' : Scan}

/-- A push is charged with the bytes of the element and of the slots that were added. -/
theorem pushBudgeted_some {size heap retained max : ℕ} {v : Buffer ℕ} {grant : Grant}
    {p : Buffer ℕ × ℕ} (hv : v.items.length ≤ v.capacity)
    (h : pushBudgeted size v heap retained max grant = some p) :
    p.1.items = heap :: v.items ∧ p.1.items.length ≤ p.1.capacity ∧ p.2 ≤ max ∧
      p.2 + v.capacity * size = retained + heap + p.1.capacity * size := by
  unfold pushBudgeted at h
  obtain ⟨-, hb⟩ := Option.ite_none_left_eq_some.mp h
  obtain ⟨cap, hc, hr⟩ := Option.bind_eq_some_iff.mp hb
  obtain ⟨hn, ⟨⟩⟩ := Option.ite_none_left_eq_some.mp hr
  have hcap : v.items.length < cap ∧ v.capacity ≤ cap := by
    by_cases hf : v.items.length = v.capacity
    · rw [if_pos hf, if_neg (by omega)] at hc
      obtain ⟨beyond, -, rfl⟩ := Option.map_eq_some_iff.mp hc
      omega
    · rw [if_neg hf, if_pos rfl] at hc
      obtain rfl := Option.some.inj hc
      omega
  have hs : v.capacity * size + (cap - v.capacity) * size = cap * size := by
    rw [← Nat.add_mul, Nat.add_sub_cancel' hcap.2]
  dsimp only [Buffer.push] at hn ⊢
  rw [if_pos (.inl hcap.1)]
  exact ⟨rfl, hcap.1, Nat.le_of_not_lt hn, by omega⟩

namespace Scan.Balanced

theorem pushDirectory {bytes : ℕ} {grant : Grant} (h : s.Balanced c)
    (hs : s.pushDirectory c bytes grant = some s') : s'.Balanced c := by
  obtain ⟨p, hp, rfl⟩ := Option.map_eq_some_iff.mp hs
  obtain ⟨hi, hl, hm, he⟩ := pushBudgeted_some h.stack hp
  refine ⟨?_, hm, hl, h.samples⟩
  have hx := h.exact
  simp only [heldBytes, hi, List.sum_cons] at hx ⊢
  omega

theorem visit {entry : Entry} (h : s.Balanced c) (hs : s.visit c entry = some s') :
    s'.Balanced c := by
  obtain ⟨-, hs⟩ := Option.ite_none_left_eq_some.mp hs
  have hc : ({ s with seen := s.seen + 1 } : Scan).Balanced c := ⟨h.exact, h.within, h.stack, h.samples⟩
  cases entry with
  | skipped =>
    obtain rfl := Option.some.inj hs
    exact hc
  | directory bytes grant => exact hc.pushDirectory hs
  | file bytes grant =>
    obtain ⟨p, hp, rfl⟩ := Option.map_eq_some_iff.mp hs
    obtain ⟨hi, hl, hm, he⟩ := pushBudgeted_some h.samples hp
    refine ⟨?_, hm, h.stack, hl⟩
    have hx := h.exact
    simp only [heldBytes, hi, List.sum_cons] at hx he ⊢
    omega

theorem covers (h : s.Balanced c) {bytes : ℕ} (hb : s.current = some bytes) :
    bytes ≤ s.retainedBytes := by
  rw [h.exact, heldBytes, hb, Option.getD_some]
  omega

theorem step {e : ScanEvent} (h : s.Balanced c) (hs : s.step c e = some s') : s'.Balanced c := by
  have hx := h.exact
  cases e with
  | start grant =>
    obtain ⟨-, hs⟩ := Option.ite_none_right_eq_some.mp hs
    exact h.pushDirectory hs
  | pop =>
    simp only [Scan.step] at hs
    split at hs
    next bytes rest hc hi =>
      obtain rfl := Option.some.inj hs
      have hl := h.stack
      rw [hi] at hl
      refine ⟨?_, h.within, Nat.le_of_succ_le hl, h.samples⟩
      simp only [heldBytes, hc, hi, List.sum_cons, Option.getD_none, Option.getD_some] at hx ⊢
      omega
    · cases hs
  | ignore =>
    obtain ⟨-, -, rfl⟩ := Option.map_eq_some_iff.mp hs
    exact h
  | entry entry =>
    obtain ⟨-, -, hs⟩ := Option.bind_eq_some_iff.mp hs
    exact h.visit hs
  | close =>
    obtain ⟨bytes, hb, rfl⟩ := Option.map_eq_some_iff.mp hs
    refine ⟨?_, (Nat.sub_le _ _).trans h.within, h.stack, h.samples⟩
    simp only [heldBytes, hb, Option.getD_none, Option.getD_some] at hx ⊢
    omega

end Scan.Balanced

/-- In every state of a scan `retained_bytes` is exactly what is held, it is within the budget, and
the subtraction at the end of a directory does not underflow. -/
theorem collect_within_budget (c : ScanLimits) (s : Scan)
    (h : (Scan.machine c).Reachable (fun _ _ => True) s) :
    s.retainedBytes = s.heldBytes c ∧ s.retainedBytes ≤ c.maxBytes ∧
      ∀ bytes, s.current = some bytes → bytes ≤ s.retainedBytes := by
  have hb : s.Balanced c := h.invariant ⟨by simp [Scan.machine, Scan.heldBytes], Nat.zero_le _,
    le_rfl, le_rfl⟩ fun _ _ _ _ hs _ hst => hs.step hst
  exact ⟨hb.exact, hb.within, fun _ => hb.covers⟩

/-- A scan that has opened a directory below the root and collected a file in it. -/
theorem collect_within_budget_nested : ∃ s : Scan, s.retainedBytes = 1291 ∧
    s.retainedBytes = s.heldBytes ⟨24, 120, 5, 2000⟩ ∧ s.retainedBytes ≤ 2000 := by
  obtain ⟨s, hs, hp⟩ := @Machine.exists_reachable_of_run _ _ (Scan.machine ⟨24, 120, 5, 2000⟩)
    (fun _ _ => True)
    [.start (some 0), .pop, .ignore, .entry (.directory 20 none), .close, .pop,
      .entry (.file 119 (some 0))] (fun s => s.retainedBytes = 1291) (fun _ _ _ => trivial) (by decide)
  have h := collect_within_budget ⟨24, 120, 5, 2000⟩ s hs
  exact ⟨s, of_decide_eq_true hp, h.1, h.2.1⟩

end DufsRam.Tagging
