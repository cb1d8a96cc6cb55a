import Mathlib

/-!
# The upload queue of the browser

Model of `createUploadQueue` (`web/modules/upload/queue.ts`, lines 5-52). An entry is an object with
a mutable flag: it is a handle, numbered in the order of creation, with its value, and the flags are
part of the state.

Results:
* `UploadQueue.Sound.call`: each call answers and acts as on the list of waiting elements.
* `uploadQueue_refines_fifo`: so does every sequence of calls, and `cancel` answers `true` at most
  once for an entry.
-/

namespace DufsRam.Browser

/-- A call on the queue; the handle of `cancel` may be `null`. -/
inductive QueueCall (α : Type*)
  | enqueue (value : α)
  | cancel (entry : Option ℕ)
  | dequeue
  | size

inductive QueueAnswer (α : Type*)
  | entry (i : ℕ)
  | cancelled (answer : Bool)
  | value (value : Option α)
  | size (n : ℤ)

variable {α : Type*}

/-- The list: the waiting elements with their handles, the oldest first. -/
structure Fifo (α : Type*) where
  next : ℕ
  waiting : List (ℕ × α)

def Fifo.call (f : Fifo α) : QueueCall α → QueueAnswer α × Fifo α
  | .enqueue value => (.entry f.next, ⟨f.next + 1, f.waiting ++ [(f.next, value)]⟩)
  | .cancel entry => (.cancelled (f.waiting.any (entry = some ·.1)),
      ⟨f.next, f.waiting.filter (entry ≠ some ·.1)⟩)
  | .dequeue => (.value (f.waiting.head?.map Prod.snd), ⟨f.next, f.waiting.tail⟩)
  | .size => (.size f.waiting.length, f)

/-! ## The code -/

structure UploadQueue (α : Type*) where
  next : ℕ
  active : ℕ → Bool
  entries : List (ℕ × α)
  head : ℕ
  size : ℤ

namespace UploadQueue

variable (q : UploadQueue α)

/-- `compact` (lines 38-42). -/
def compact (force : Bool) : UploadQueue α :=
  let stay := !force && (q.head < 256 || q.head * 2 < q.entries.length)
  { q with
    entries := if stay then q.entries else q.entries.drop q.head
    head := if stay then q.head else 0 }

/-- `enqueue` (lines 10-15). -/
def enqueue (value : α) : UploadQueue α :=
  { q with
    next := q.next + 1
    active := Function.update q.active q.next true
    entries := q.entries ++ [(q.next, value)]
    size := q.size + 1 }

/-- What `cancel` and `dequeue` do to an active entry. -/
def deactivate (i : ℕ) : UploadQueue α :=
  { q with active := Function.update q.active i false, size := q.size - 1 }.compact false

/-- `cancel` (lines 17-23). -/
def cancel (entry : Option ℕ) : Bool × UploadQueue α :=
  match entry.filter q.active with
  | none => (false, q)
  | some i => (true, q.deactivate i)

/-- The loop of `dequeue` (lines 26-35) over the entries from the head on. -/
def dequeueFrom : List (ℕ × α) → ℕ → Option α × UploadQueue α
  | [], head => (none, { q with head := head }.compact true)
  | a :: rest, head =>
    if q.active a.1 then (some a.2, { q with head := head + 1 }.deactivate a.1)
    else dequeueFrom rest (head + 1)

/-- The entries from the head on. -/
def pending : List (ℕ × α) := q.entries.drop q.head

/-- `dequeue` (lines 25-36). -/
def dequeue : Option α × UploadQueue α := q.dequeueFrom q.pending q.head

def call : QueueCall α → QueueAnswer α × UploadQueue α
  | .enqueue value => (.entry q.next, q.enqueue value)
  | .cancel entry => (.cancelled (q.cancel entry).1, (q.cancel entry).2)
  | .dequeue => (.value q.dequeue.1, q.dequeue.2)
  | .size => (.size q.size, q)

/-! ## What is waiting -/

def toFifo : Fifo α := ⟨q.next, q.pending.filter (q.active ·.1)⟩

/-- The pending entries are distinct, those that are active are among them, and they are counted. -/
structure Sound : Prop where
  head : q.head ≤ q.entries.length
  nodup : (q.pending.map Prod.fst).Nodup
  made : ∀ a ∈ q.pending, a.1 < q.next
  active : ∀ i, q.active i → i ∈ q.pending.map Prod.fst
  size : q.size = (q.pending.filter (q.active ·.1)).length

variable {q} {i : ℕ} {a : ℕ × α} {l : List (ℕ × α)}

@[simp] theorem pending_compact (q : UploadQueue α) (force : Bool) :
    (q.compact force).pending = q.pending := by
  simp only [compact, pending]
  split_ifs
  · rfl
  · exact List.drop_zero

theorem Sound.compact (h : q.Sound) (force : Bool) : (q.compact force).Sound := by
  refine ⟨?_, ?_, ?_, ?_, ?_⟩
  · have := h.head
    simp only [UploadQueue.compact]
    split_ifs
    · exact this
    · exact Nat.zero_le _
  all_goals rw [pending_compact]
  exacts [h.nodup, h.made, h.active, h.size]

theorem length_filter_ne (h : (l.map Prod.fst).Nodup) (hi : i ∈ l.map Prod.fst) :
    (l.filter (i ≠ ·.1)).length + 1 = l.length := by
  have hc : l.countP (i = ·.1) = 1 := by
    rw [← List.count_eq_one_of_mem h hi, List.count, List.countP_map]
    refine List.countP_congr fun a _ => ?_
    rw [Function.comp_apply, decide_eq_true_iff, beq_iff_eq, eq_comm]
  have := List.length_eq_countP_add_countP (i = ·.1) (l := l)
  simp only [List.countP_eq_length_filter] at this hc
  simp_all
  omega

/-- An active entry goes, and with it, if the head passes it, its place. -/
theorem Sound.deactivate (h : q.Sound) (hi : q.active i) {head : ℕ} (hh : head ≤ q.entries.length)
    (hp : q.entries.drop head = q.pending ∨ ∃ a, a.1 = i ∧ q.pending = a :: q.entries.drop head) :
    ({ q with head := head }.deactivate i).Sound ∧
      ({ q with head := head }.deactivate i).toFifo =
        ⟨q.next, q.toFifo.waiting.filter (i ≠ ·.1)⟩ := by
  have hsub : (q.entries.drop head).Sublist q.pending := by
    obtain hp | ⟨a, -, hp⟩ := hp
    · rw [hp]
    · rw [hp]
      exact List.sublist_cons_self _ _
  have hw : (q.entries.drop head).filter (fun a => Function.update q.active i false a.1) =
      q.toFifo.waiting.filter (i ≠ ·.1) := by
    have hf : q.pending.filter (fun a => Function.update q.active i false a.1) =
        q.toFifo.waiting.filter (i ≠ ·.1) := by
      rw [toFifo, List.filter_filter]
      refine List.filter_congr fun a _ => ?_
      by_cases ha : a.1 = i
      · simp [ha]
      · simp [ha, Ne.symm ha]
    obtain hp | ⟨a, rfl, hp⟩ := hp
    · rw [hp, hf]
    · rw [← hf, hp, List.filter_cons_of_neg (by simp)]
  have hn : (q.toFifo.waiting.filter (i ≠ ·.1)).length + 1 = q.toFifo.waiting.length := by
    obtain ⟨a, ha, rfl⟩ := List.mem_map.mp (h.active i hi)
    exact length_filter_ne (h.nodup.sublist (List.filter_sublist.map _))
      (List.mem_map_of_mem (List.mem_filter.mpr ⟨ha, hi⟩))
  have hs : Sound { q with
      head := head, active := Function.update q.active i false, size := q.size - 1 } := by
    refine ⟨hh, h.nodup.sublist (hsub.map _), fun a ha => h.made a (hsub.subset ha),
      fun j hj => ?_, ?_⟩
    · have hne : j ≠ i := by
        rintro rfl
        simp at hj
      have hm := h.active j ((Function.update_of_ne hne _ _).symm.trans hj)
      obtain hp | ⟨a, rfl, hp⟩ := hp
      · rwa [← hp] at hm
      · rw [hp] at hm
        exact (List.mem_cons.mp hm).resolve_left hne
    · have hc : q.size = q.toFifo.waiting.length := h.size
      show q.size - 1 = ((q.entries.drop head).filter _).length
      rw [hw]
      omega
  refine ⟨hs.compact false, ?_⟩
  rw [UploadQueue.deactivate, toFifo, pending_compact, ← hw]
  rfl

/-! ## The calls -/

/-- A call keeps the queue sound, answers as on the list and does the same to it. -/
structure Simulates (q : UploadQueue α) (c : QueueCall α) : Prop where
  sound : (q.call c).2.Sound
  answer : (q.call c).1 = (q.toFifo.call c).1
  next : (q.call c).2.toFifo = (q.toFifo.call c).2

theorem Sound.enqueue (h : q.Sound) (v : α) : q.Simulates (.enqueue v) := by
  have hp : (q.enqueue v).pending = q.pending ++ [(q.next, v)] :=
    List.drop_append_of_le_length h.head
  have hw : (q.enqueue v).pending.filter (fun a => (q.enqueue v).active a.1) =
      q.toFifo.waiting ++ [(q.next, v)] := by
    have ho : q.pending.filter (fun a => (q.enqueue v).active a.1) = q.toFifo.waiting :=
      List.filter_congr fun a ha => Function.update_of_ne (h.made a ha).ne _ _
    rw [hp, List.filter_append, ho]
    simp [UploadQueue.enqueue]
  have hs : (q.enqueue v).Sound := by
    refine ⟨?_, ?_, ?_, fun i hi => ?_, ?_⟩
    · have := h.head
      simp only [UploadQueue.enqueue, List.length_append]
      omega
    · rw [hp, List.map_append, List.nodup_append]
      refine ⟨h.nodup, List.nodup_singleton _, fun i hi j hj => ?_⟩
      obtain ⟨a, ha, rfl⟩ := List.mem_map.mp hi
      rw [List.mem_singleton.mp hj]
      exact (h.made a ha).ne
    · rw [hp]
      intro a ha
      obtain ha | ha := List.mem_append.mp ha
      · exact (h.made a ha).trans (Nat.lt_succ_self _)
      · rw [List.mem_singleton.mp ha]
        exact Nat.lt_succ_self _
    · rw [hp, List.map_append, List.mem_append]
      by_cases hn : i = q.next
      · exact Or.inr (List.mem_singleton.mpr hn)
      · exact Or.inl (h.active i ((Function.update_of_ne hn _ _).symm.trans hi))
    · rw [hw, List.length_append]
      exact congrArg (· + 1) h.size
  exact ⟨hs, rfl, congrArg (Fifo.mk _) hw⟩

theorem Sound.cancel (h : q.Sound) (e : Option ℕ) : q.Simulates (.cancel e) := by
  have hm : ∀ i, (i ∈ q.toFifo.waiting.map Prod.fst ↔ q.active i) := fun i => by
    refine ⟨fun hi => ?_, fun hi => ?_⟩
    · obtain ⟨a, ha, rfl⟩ := List.mem_map.mp hi
      exact (List.mem_filter.mp ha).2
    · obtain ⟨a, ha, rfl⟩ := List.mem_map.mp (h.active i hi)
      exact List.mem_map_of_mem (List.mem_filter.mpr ⟨ha, hi⟩)
  cases hf : e.filter q.active with
  | none =>
    have hc : q.cancel e = (false, q) := by rw [UploadQueue.cancel, hf]
    have hn : ∀ a ∈ q.toFifo.waiting, e ≠ some a.1 := by
      rintro a ha rfl
      have := (hm a.1).mp (List.mem_map_of_mem ha)
      simp [this] at hf
    refine ⟨by rw [call, hc]; exact h, ?_, ?_⟩
    · rw [call, hc, Fifo.call, eq_comm]
      simpa using hn
    · rw [call, hc, Fifo.call, List.filter_eq_self.mpr (by simpa using hn)]
  | some i =>
    have hc : q.cancel e = (true, q.deactivate i) := by rw [UploadQueue.cancel, hf]
    obtain ⟨rfl, hi⟩ := Option.filter_eq_some_iff.mp hf
    obtain ⟨hs, hd⟩ := h.deactivate hi h.head (Or.inl rfl)
    obtain ⟨a, ha, rfl⟩ := List.mem_map.mp ((hm i).mpr hi)
    refine ⟨by rw [call, hc]; exact hs, ?_, ?_⟩
    · rw [call, hc, Fifo.call, List.any_eq_true.mpr ⟨a, ha, by simp⟩]
    · rw [call, hc]
      refine hd.trans ?_
      simp [Fifo.call, toFifo]

theorem dequeueFrom_head (q : UploadQueue α) (n k : ℕ) :
    { q with head := n }.dequeueFrom l k = q.dequeueFrom l k := by
  induction l generalizing k with
  | nil => rfl
  | cons a l ih => rw [dequeueFrom, dequeueFrom, ih]

theorem Sound.dequeueFrom (h : q.Sound) (hl : q.pending = l) : (q.dequeueFrom l q.head).2.Sound ∧
      (q.dequeueFrom l q.head).1 = q.toFifo.waiting.head?.map Prod.snd ∧
      (q.dequeueFrom l q.head).2.toFifo = ⟨q.next, q.toFifo.waiting.tail⟩ := by
  induction l generalizing q with
  | nil =>
    have hw : q.toFifo.waiting = [] := by rw [toFifo, hl]; rfl
    rw [hw]
    refine ⟨h.compact true, rfl, ?_⟩
    rw [UploadQueue.dequeueFrom, toFifo, pending_compact]
    exact congrArg (Fifo.mk _) hw
  | cons a l ih =>
    have hn := congrArg List.length hl
    simp only [pending, List.length_drop, List.length_cons] at hn
    have hh : q.head + 1 ≤ q.entries.length := by omega
    have hp : q.entries.drop (q.head + 1) = l := by
      rw [← List.drop_drop, ← pending, hl]
      rfl
    rw [UploadQueue.dequeueFrom]
    split_ifs with ha
    · obtain ⟨hs, hd⟩ := h.deactivate ha hh (Or.inr ⟨a, rfl, by rw [hp, hl]⟩)
      have hw : q.toFifo.waiting = a :: l.filter (q.active ·.1) := by
        simp [toFifo, hl, ha]
      refine ⟨hs, by rw [hw]; rfl, hd.trans (congrArg (Fifo.mk _) ?_)⟩
      have hne : ∀ b ∈ l, a.1 ≠ b.1 := fun b hb he => by
        have := h.nodup
        rw [hl, List.map_cons, List.nodup_cons] at this
        exact this.1 (he ▸ List.mem_map_of_mem hb)
      rw [hw, List.filter_cons_of_neg (by simp), List.tail_cons, List.filter_eq_self.mpr]
      exact fun b hb => by simpa using hne b (List.mem_filter.mp hb).1
    · -- An entry that is not active is passed over.
      have hw : q.toFifo.waiting = l.filter (q.active ·.1) := by
        simp [toFifo, hl, ha]
      have hs : Sound { q with head := q.head + 1 } := by
        have hq : { q with head := q.head + 1 }.pending = l := hp
        have hm := h.active
        have hd := h.nodup
        rw [hl] at hm hd
        refine ⟨hh, ?_, ?_, ?_, ?_⟩
        · rw [hq]
          exact hd.of_cons
        · rw [hq]
          exact fun b hb => h.made b (hl ▸ List.mem_cons_of_mem _ hb)
        · rw [hq]
          exact fun j hj => (List.mem_cons.mp (hm j hj)).resolve_left fun he => ha (he ▸ hj)
        · rw [hq, ← hw]
          exact h.size
      have := ih hs hp
      rw [dequeueFrom_head] at this
      have hf : { q with head := q.head + 1 }.toFifo = q.toFifo := by
        rw [toFifo, pending, hp, ← hw]
        rfl
      rwa [hf] at this

theorem Sound.call (h : q.Sound) (c : QueueCall α) : q.Simulates c := by
  cases c with
  | enqueue v => exact h.enqueue v
  | cancel e => exact h.cancel e
  | dequeue =>
    obtain ⟨hs, ha, hf⟩ := h.dequeueFrom rfl
    exact ⟨hs, congrArg _ ha, hf⟩
  | size => exact ⟨h, congrArg _ h.size, rfl⟩

end UploadQueue

/-! ## Runs -/

/-- The answers to one call after another. -/
def answers {σ : Type*} (call : σ → QueueCall α → QueueAnswer α × σ) :
    σ → List (QueueCall α) → List (QueueAnswer α)
  | _, [] => []
  | s, c :: calls => (call s c).1 :: answers call (call s c).2 calls

theorem UploadQueue.Sound.answers_eq {q : UploadQueue α} (h : q.Sound)
    (calls : List (QueueCall α)) :
    answers UploadQueue.call q calls = answers Fifo.call q.toFifo calls := by
  induction calls generalizing q with
  | nil => rfl
  | cons c calls ih =>
    obtain ⟨hs, ha, hf⟩ := h.call c
    rw [answers, answers, ih hs, ha, hf]

/-- A `cancel` of the given entry that answers `true`. -/
def cancels (i : ℕ) : QueueCall α × QueueAnswer α → Bool
  | (.cancel entry, .cancelled answer) => answer && entry = some i
  | _ => false

namespace Fifo

variable {f : Fifo α} {i : ℕ}

/-- The elements that wait have been made. -/
def Made (f : Fifo α) : Prop := ∀ a ∈ f.waiting, a.1 < f.next

/-- An element that was made and does not wait. -/
def Past (f : Fifo α) (i : ℕ) : Prop := i < f.next ∧ ∀ a ∈ f.waiting, a.1 ≠ i

theorem mem_call {c : QueueCall α} {a : ℕ × α} (ha : a ∈ (f.call c).2.waiting) :
    a ∈ f.waiting ∨ a.1 = f.next ∧ (f.call c).2.next = f.next + 1 := by
  cases c with
  | enqueue v =>
    refine (List.mem_append.mp ha).imp_right fun ha => ?_
    rw [List.mem_singleton.mp ha]
    exact ⟨rfl, rfl⟩
  | cancel e => exact Or.inl (List.mem_filter.mp ha).1
  | dequeue => exact Or.inl (List.mem_of_mem_tail ha)
  | size => exact Or.inl ha

theorem next_le_call (f : Fifo α) (c : QueueCall α) : f.next ≤ (f.call c).2.next := by
  cases c <;> simp [call]

theorem Made.call (h : f.Made) (c : QueueCall α) : (f.call c).2.Made := fun a ha => by
  obtain ha | ⟨ha, hn⟩ := mem_call ha
  · exact (h a ha).trans_le (f.next_le_call c)
  · omega

theorem Past.call (h : f.Past i) (c : QueueCall α) : (f.call c).2.Past i :=
  ⟨h.1.trans_le (f.next_le_call c), fun a ha => (mem_call ha).elim (h.2 a) fun ha => by
    have := h.1
    omega⟩

/-- An element that is cancelled has been waiting, and is past then. -/
theorem of_cancels {c : QueueCall α} (h : cancels i (c, (f.call c).1) = true) :
    ¬ f.Past i ∧ (f.Made → (f.call c).2.Past i) := by
  cases c with
  | cancel e =>
    obtain ⟨ha, he⟩ := Bool.and_eq_true_iff.mp h
    obtain rfl : e = some i := of_decide_eq_true he
    obtain ⟨a, hw, hi⟩ := List.any_eq_true.mp ha
    obtain rfl : i = a.1 := Option.some.inj (of_decide_eq_true hi)
    exact ⟨fun hp => hp.2 a hw rfl, fun hm => ⟨hm a hw, fun b hb hba =>
      of_decide_eq_true (List.mem_filter.mp hb).2 (congrArg some hba.symm)⟩⟩
  | enqueue | dequeue | size => cases h

theorem countP_cancels (hm : f.Made) (calls : List (QueueCall α)) :
    (calls.zip (answers call f calls)).countP (cancels i) ≤ 1 ∧
      (f.Past i → (calls.zip (answers call f calls)).countP (cancels i) = 0) := by
  induction calls generalizing f with
  | nil => exact ⟨Nat.zero_le _, fun _ => rfl⟩
  | cons c calls ih =>
    obtain ⟨hle, hz⟩ := ih (hm.call c)
    rw [answers, List.zip_cons_cons, List.countP_cons]
    split_ifs with hc
    · obtain ⟨hp, hn⟩ := of_cancels hc
      rw [hz (hn hm)]
      exact ⟨le_rfl, fun h => absurd h hp⟩
    · exact ⟨hle, fun h => hz (h.call c)⟩

end Fifo

/-- Whatever is called in whatever order, the answers are those of the list, where `cancel` answers
    `true` at most once for an entry. -/
theorem uploadQueue_refines_fifo (calls : List (QueueCall α)) :
    answers UploadQueue.call ⟨0, fun _ => false, [], 0, 0⟩ calls =
        answers Fifo.call ⟨0, []⟩ calls ∧
      ∀ i, (calls.zip (answers UploadQueue.call ⟨0, fun _ => false, [], 0, 0⟩ calls)).countP
        (cancels i) ≤ 1 := by
  have h : answers UploadQueue.call ⟨0, fun _ => false, [], 0, 0⟩ calls =
      answers Fifo.call ⟨0, []⟩ calls :=
    UploadQueue.Sound.answers_eq (q := ⟨0, fun _ => false, [], 0, 0⟩)
      ⟨le_rfl, List.nodup_nil, nofun, nofun, rfl⟩ calls
  refine ⟨h, fun i => ?_⟩
  rw [h]
  exact (Fifo.countP_cancels (fun _ h => by cases h) calls).1

end DufsRam.Browser
