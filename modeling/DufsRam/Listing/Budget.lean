import DufsRam.Lib.Machine
import DufsRam.RootedFs.Tree
import Mathlib

/-!
# The memory budget of a walk

Model of `DirectoryWalkState` (`listing/walk.rs`, lines 80-264) and of the collected items
(`listing.rs`, lines 951-1015), as far as they count bytes. A path is its capacity.
`try_reserve_exact` allocates what it was asked for or fails, and no sum reaches `usize::MAX`. What a
hash table counts as its capacity changes with its tombstones, so the capacity of the set of
identities after an insertion or a removal is an input.

Results:
* `tryReserveBoundedVecSlot_ok`: a vector that grows fits in the budget next to its old buffer.
* `walk_within_budget`: the invariants of a walk, and its peaks.
* `reused_slot_exceeds_budget`: a walk that leaves its budget.
-/

namespace DufsRam.Listing

open RootedFs

/-- A `Vec`, the last element first, and its capacity. -/
structure Buffer (α : Type) where
  items : List α
  capacity : ℕ

/-- `Vec::push`: a full vector grows. -/
def Buffer.push {α : Type} (itemBytes : ℕ) (v : Buffer α) (a : α) : Buffer α :=
  ⟨a :: v.items,
    if v.items.length < v.capacity ∨ itemBytes = 0 then v.capacity else max (2 * v.capacity) 4⟩

/-- `BoundedReserveError` (`listing.rs`, lines 1439-1443). -/
inductive BoundedReserveError
  | budget
  | allocation

/-- Twice the capacity, and room for one more element (`listing.rs`, lines 1464-1468). -/
def Buffer.preferredCapacity {α : Type} (v : Buffer α) : ℕ :=
  if v.capacity = 0 then max (v.items.length + 1) 4 else max (v.capacity * 2) (v.items.length + 1)

/-- `try_reserve_bounded_vec_slot` (`listing.rs`, lines 1445-1477). -/
def tryReserveBoundedVecSlot {α : Type} (itemBytes : ℕ) (values : Buffer α)
    (nonVectorBytes maximumBytes : ℕ) (allocates : Bool) : Except BoundedReserveError (Buffer α) :=
  if values.items.length < values.capacity ∨ itemBytes = 0 then .ok values
  else
    let oldAllocation := values.capacity * itemBytes
    let availableForNew := maximumBytes - (nonVectorBytes + oldAllocation)
    let maximumNewCapacity := availableForNew / itemBytes
    let requiredCapacity := values.items.length + 1
    if maximumNewCapacity < requiredCapacity then .error .budget
    else
      let requestedCapacity := min values.preferredCapacity maximumNewCapacity
      if allocates then
        let capacity := values.items.length + (requestedCapacity - values.items.length)
        if maximumNewCapacity < capacity then .error .budget
        else .ok ⟨values.items, capacity⟩
      else .error .allocation

/-- A slot is free, and a new buffer fits in the budget next to the old one. -/
structure Reserved {α : Type} (itemBytes nonVectorBytes maximumBytes : ℕ) (v v' : Buffer α) :
    Prop where
  items : v'.items = v.items
  slot : v'.items.length < v'.capacity ∨ itemBytes = 0
  peak : v'.capacity = v.capacity ∨
    nonVectorBytes + v.capacity * itemBytes + v'.capacity * itemBytes ≤ maximumBytes

theorem tryReserveBoundedVecSlot_ok {α : Type} {itemBytes rest max : ℕ}
    {v v' : Buffer α} {allocates : Bool}
    (h : tryReserveBoundedVecSlot itemBytes v rest max allocates = .ok v') :
    Reserved itemBytes rest max v v' := by
  have hpref : v.items.length < v.preferredCapacity := by
    unfold Buffer.preferredCapacity
    split_ifs
    · omega
    · omega
  unfold tryReserveBoundedVecSlot at h
  dsimp only at h
  split_ifs at h with hslot hsmall halloc hlarge
  · obtain ⟨⟩ := h
    exact ⟨rfl, hslot, .inl rfl⟩
  obtain ⟨⟩ := h
  have hnew : v.items.length < v.items.length + (min v.preferredCapacity
      ((max - (rest + v.capacity * itemBytes)) / itemBytes) - v.items.length) := by
    omega
  refine ⟨rfl, .inl hnew, .inr ?_⟩
  have hfits := (Nat.mul_le_mul_right itemBytes (Nat.le_of_not_lt hlarge)).trans
    (Nat.div_mul_le_self _ itemBytes)
  have hpos := Nat.mul_pos (Nat.zero_lt_of_lt hnew) (Nat.pos_of_ne_zero (not_or.mp hslot).2)
  dsimp only
  omega

/-- A vector with a free slot keeps its buffer. -/
theorem Reserved.push {α : Type} {itemBytes rest max : ℕ} {v v' : Buffer α}
    (h : Reserved itemBytes rest max v v') (a : α) :
    v'.push itemBytes a = ⟨a :: v.items, v'.capacity⟩ := by
  rw [Buffer.push, if_pos h.slot, h.items]

/-! ## The walk -/

/-- The sizes of the types in bytes, `identity` that of an identity and a word. -/
structure Sizes where
  state : ℕ
  frame : ℕ
  visited : ℕ
  identity : ℕ

/-- `DirectoryWalkFrame` (lines 67-72). -/
structure CountedFrame where
  identity : FileIdentity
  pathBytes : ℕ
  depth : ℕ

/-- `DirectoryWalkState` (lines 80-86); a visited directory is the capacity of its path. -/
structure DirectoryWalkState where
  stack : Buffer CountedFrame
  visited : Buffer ℕ
  active : Finset FileIdentity
  activeCapacity : ℕ
  pathHeapBytes : ℕ

inductive WalkError
  | depthBudget
  | symlinkLoop
  | workingMemory
  | allocation

def BoundedReserveError.walkError : BoundedReserveError → WalkError
  | .budget => .workingMemory
  | .allocation => .allocation

namespace DirectoryWalkState

variable (z : Sizes) (s : DirectoryWalkState)

/-- `working_bytes` (lines 119-136). -/
def workingBytes (additionalPathBytes : ℕ) : ℕ :=
  z.state + s.stack.capacity * z.frame + s.visited.capacity * z.visited +
    s.activeCapacity * z.identity + s.pathHeapBytes + additionalPathBytes

/-- `new` (lines 89-117). `reserved` is the capacity that the set of identities gets. -/
def new (maxDepth maxWorkingBytes : ℕ) (reserved : Option ℕ) :
    Except WalkError DirectoryWalkState :=
  if maxWorkingBytes < z.state + (maxDepth + 1) * 4 * z.identity then .error .workingMemory
  else
    match reserved with
    | none => .error .allocation
    | some capacity =>
      let s : DirectoryWalkState := ⟨⟨[], 0⟩, ⟨[], 0⟩, ∅, capacity, 0⟩
      if maxWorkingBytes < s.workingBytes z 0 then .error .workingMemory else .ok s

/-- The bytes of the elements, without free slots (lines 162-178 and 221-236). -/
def minimum (frames visited active pathBytes : ℕ) : ℕ :=
  z.state + frames * z.frame + visited * z.visited + active * z.identity + s.pathHeapBytes +
    pathBytes

/-- `push_directory` (lines 138-212), without the debug assertion of line 198. The set of identities
    has the capacity `inserted` after the insertion, which follows the check. -/
def pushDirectory (identity : FileIdentity) (pathBytes depth maxDepth maxWorkingBytes : ℕ)
    (allocates : Bool) (inserted : ℕ) : Except WalkError DirectoryWalkState :=
  if maxDepth < depth then .error .depthBudget
  else if identity ∈ s.active then .error .symlinkLoop
  else if maxWorkingBytes < s.minimum z (s.stack.items.length + 1) s.visited.items.length
      (s.active.card + 1) pathBytes then .error .workingMemory
  else
    match tryReserveBoundedVecSlot z.frame s.stack
      (s.workingBytes z pathBytes - s.stack.capacity * z.frame) maxWorkingBytes allocates with
    | .error e => .error e.walkError
    | .ok stack =>
      if maxWorkingBytes < { s with stack := stack }.workingBytes z pathBytes then
        .error .workingMemory
      else .ok { s with
        pathHeapBytes := s.pathHeapBytes + pathBytes
        active := insert identity s.active
        activeCapacity := inserted
        stack := stack.push z.frame ⟨identity, pathBytes, depth⟩ }

/-- `finish_current` (lines 214-263). The set of identities has the capacity `removed` after the
    removal, which comes before the checks. -/
def finishCurrent (frame : CountedFrame) (rest : List CountedFrame) (maxWorkingBytes : ℕ)
    (allocates : Bool) (removed : ℕ) : Except WalkError DirectoryWalkState :=
  let s := { s with
    stack := ⟨rest, s.stack.capacity⟩
    active := s.active.erase frame.identity
    activeCapacity := removed }
  if maxWorkingBytes < s.minimum z rest.length (s.visited.items.length + 1) s.active.card 0 then
    .error .workingMemory
  else
    match tryReserveBoundedVecSlot z.visited s.visited
      (s.workingBytes z 0 - s.visited.capacity * z.visited) maxWorkingBytes allocates with
    | .error e => .error e.walkError
    | .ok visited =>
      if maxWorkingBytes < { s with visited := visited }.workingBytes z 0 then .error .workingMemory
      else .ok { s with visited := visited.push z.visited frame.pathBytes }

/-- Each frame has as many frames below it as its depth says. -/
def Nested : List CountedFrame → Prop
  | [] => True
  | frame :: rest => frame.depth = rest.length ∧ Nested rest

/-- What holds of a walk between its calls. -/
structure Walked (maxDepth : ℕ) : Prop where
  heap : s.pathHeapBytes = (s.stack.items.map (·.pathBytes)).sum + s.visited.items.sum
  active : s.active = (s.stack.items.map (·.identity)).toFinset
  distinct : (s.stack.items.map (·.identity)).Nodup
  length : s.stack.items.length ≤ maxDepth + 1
  nested : Nested s.stack.items

/-- The vectors that grow from `s` to `t` fit in the budget together with their old buffers, next to
    a set of identities with the capacity that the call finds, or leaves behind it. -/
structure Peaks (additionalPathBytes maxWorkingBytes : ℕ) (t : DirectoryWalkState) : Prop where
  stack : t.stack.capacity = s.stack.capacity ∨
    s.workingBytes z additionalPathBytes + t.stack.capacity * z.frame ≤ maxWorkingBytes
  visited : t.visited.capacity = s.visited.capacity ∨
    { s with activeCapacity := t.activeCapacity }.workingBytes z additionalPathBytes +
      t.visited.capacity * z.visited ≤ maxWorkingBytes

variable {z s} {t : DirectoryWalkState} {maxDepth maxWorkingBytes : ℕ} {allocates : Bool}

/-- The budget holds after a push with the capacity that the check has read. -/
theorem Walked.push (h : s.Walked maxDepth) {fid : FileIdentity} {pathBytes inserted : ℕ}
    (hpush : s.pushDirectory z fid pathBytes s.stack.items.length maxDepth maxWorkingBytes
      allocates inserted = .ok t) :
    t.Walked maxDepth ∧ s.Peaks z pathBytes maxWorkingBytes t ∧ t.activeCapacity = inserted ∧
      { t with activeCapacity := s.activeCapacity }.workingBytes z 0 ≤ maxWorkingBytes := by
  unfold pushDirectory at hpush
  split_ifs at hpush with hdepth hloop hmin
  split at hpush
  · cases hpush
  rename_i stack hreserve
  split_ifs at hpush with hlarge
  obtain ⟨⟩ := hpush
  have hreserved := tryReserveBoundedVecSlot_ok hreserve
  rw [hreserved.push]
  refine ⟨⟨?_, ?_, ?_, Nat.succ_le_succ (Nat.le_of_not_lt hdepth), rfl, h.nested⟩,
    ⟨?_, .inl rfl⟩, rfl, ?_⟩
  · simp only [List.map_cons, List.sum_cons, h.heap]
    omega
  · simp only [List.map_cons, List.toFinset_cons, h.active]
  · rw [h.active, List.mem_toFinset] at hloop
    exact List.nodup_cons.mpr ⟨hloop, h.distinct⟩
  · refine hreserved.peak.imp_right fun hpeak => ?_
    dsimp only [workingBytes] at hpeak ⊢
    omega
  · dsimp only [workingBytes] at hlarge ⊢
    omega

theorem Walked.finish (h : s.Walked maxDepth) {frame : CountedFrame} {rest : List CountedFrame}
    {removed : ℕ} (hstack : s.stack.items = frame :: rest)
    (hfinish : s.finishCurrent z frame rest maxWorkingBytes allocates removed = .ok t) :
    t.Walked maxDepth ∧ s.Peaks z 0 maxWorkingBytes t ∧ t.workingBytes z 0 ≤ maxWorkingBytes := by
  obtain ⟨hheap, hactive, hdistinct, hlength, hnested⟩ := h
  simp only [hstack, List.map_cons, List.sum_cons, List.toFinset_cons, List.nodup_cons,
    List.length_cons] at hheap hactive hdistinct hlength hnested
  unfold finishCurrent at hfinish
  dsimp only at hfinish
  split_ifs at hfinish with hmin
  split at hfinish
  · cases hfinish
  rename_i visited hreserve
  split_ifs at hfinish with hlarge
  obtain ⟨⟩ := hfinish
  have hreserved := tryReserveBoundedVecSlot_ok hreserve
  rw [hreserved.push]
  refine ⟨⟨?_, ?_, hdistinct.2, Nat.le_of_succ_le hlength, hnested.2⟩, ⟨.inl rfl, ?_⟩,
    Nat.le_of_not_lt hlarge⟩
  · simp only [List.sum_cons, hheap]
    omega
  · dsimp only
    rw [hactive, Finset.erase_insert (List.mem_toFinset.not.mpr hdistinct.1)]
  · refine hreserved.peak.imp_right fun hpeak => ?_
    dsimp only [workingBytes] at hpeak ⊢
    omega

end DirectoryWalkState

/-! ## The collected items -/

/-- The heap bytes of each item, and the running sum. -/
structure Collection where
  items : Buffer ℕ
  heapBytes : ℕ

namespace Collection

variable (vecBytes itemBytes maxBytes : ℕ) (c : Collection)

/-- `collection_allocation_bytes` (`listing.rs`, lines 1404-1408). -/
def allocationBytes (capacity heapBytes : ℕ) : ℕ := vecBytes + capacity * itemBytes + heapBytes

/-- One more item (`listing.rs`, lines 954-1014, and `listing/walk.rs`, lines 527-593). -/
def collect (weight : ℕ) (allocates : Bool) : Except BoundedReserveError Collection :=
  let proposedHeapBytes := c.heapBytes + weight
  if maxBytes < allocationBytes vecBytes itemBytes (c.items.items.length + 1) proposedHeapBytes then
    .error .budget
  else
    match tryReserveBoundedVecSlot itemBytes c.items (vecBytes + proposedHeapBytes) maxBytes
      allocates with
    | .error e => .error e
    | .ok items =>
      if maxBytes < allocationBytes vecBytes itemBytes items.capacity proposedHeapBytes then
        .error .budget
      else .ok ⟨items.push itemBytes weight, proposedHeapBytes⟩

/-- Nothing is allocated before the first item, and not more than the budget from then on. -/
structure Within : Prop where
  heap : c.heapBytes = c.items.items.sum
  empty : c.items.items = [] → c.items.capacity = 0
  allocation : c.items.items ≠ [] →
    allocationBytes vecBytes itemBytes c.items.capacity c.heapBytes ≤ maxBytes

variable {vecBytes itemBytes maxBytes c} {d : Collection} {weight : ℕ} {allocates : Bool}

theorem Within.collect (h : c.Within vecBytes itemBytes maxBytes)
    (hcollect : c.collect vecBytes itemBytes maxBytes weight allocates = .ok d) :
    d.Within vecBytes itemBytes maxBytes ∧ (d.items.capacity = c.items.capacity ∨
      allocationBytes vecBytes itemBytes c.items.capacity (c.heapBytes + weight) +
        d.items.capacity * itemBytes ≤ maxBytes) := by
  unfold Collection.collect at hcollect
  dsimp only at hcollect
  split_ifs at hcollect with hmin
  split at hcollect
  · cases hcollect
  rename_i xs hreserve
  split_ifs at hcollect with hlarge
  obtain ⟨⟩ := hcollect
  have hreserved := tryReserveBoundedVecSlot_ok hreserve
  rw [hreserved.push]
  refine ⟨⟨?_, nofun, fun _ => Nat.le_of_not_lt hlarge⟩, ?_⟩
  · dsimp only
    rw [List.sum_cons, h.heap, Nat.add_comm]
  · refine hreserved.peak.imp_right fun hpeak => ?_
    dsimp only [allocationBytes]
    omega

end Collection

/-! ## Runs -/

theorem ok_of_toOption {ε α : Type} {x : Except ε α} {a : α} (h : x.toOption = some a) :
    x = .ok a := by
  cases x with
  | error => cases h
  | ok => exact congrArg _ (Option.some.inj h)

/-- A directory is pushed on top of the stack, or the one on top is completed. -/
inductive WalkCall
  | push (identity : FileIdentity) (pathBytes : ℕ) (allocates : Bool) (inserted : ℕ)
  | finish (allocates : Bool) (removed : ℕ)

def WalkCall.pathBytes : WalkCall → ℕ
  | .push _ pathBytes _ _ => pathBytes
  | .finish _ _ => 0

/-- The insertion does not raise the capacity of the set of identities, as it does when it takes the
    place of a tombstone or when the table is rebuilt. -/
def WalkCall.KeepsCapacity (s : DirectoryWalkState) : WalkCall → Prop
  | .push _ _ _ inserted => inserted ≤ s.activeCapacity
  | .finish _ _ => True

namespace DirectoryWalkState

/-- The depth that `collect_dir_items` gives to a directory (lines 373 and 512). -/
def nextDepth (s : DirectoryWalkState) : ℕ :=
  match s.stack.items with
  | [] => 0
  | frame :: _ => frame.depth + 1

variable (z : Sizes) (maxDepth maxWorkingBytes : ℕ)

/-- A call that succeeds. -/
def call (s : DirectoryWalkState) : WalkCall → Option DirectoryWalkState
  | .push identity pathBytes allocates inserted =>
    (s.pushDirectory z identity pathBytes s.nextDepth maxDepth maxWorkingBytes allocates
      inserted).toOption
  | .finish allocates removed =>
    match s.stack.items with
    | [] => none
    | frame :: rest => (s.finishCurrent z frame rest maxWorkingBytes allocates removed).toOption

def calls (init : DirectoryWalkState) : Machine DirectoryWalkState WalkCall where
  init := init
  step := call z maxDepth maxWorkingBytes

variable {z maxDepth maxWorkingBytes} {s t : DirectoryWalkState}

theorem Walked.nextDepth (h : s.Walked maxDepth) : s.nextDepth = s.stack.items.length := by
  have hnested := h.nested
  unfold DirectoryWalkState.nextDepth
  split
  · rename_i hstack
    rw [hstack, List.length_nil]
  · rename_i frame rest hstack
    rw [hstack] at hnested ⊢
    rw [hnested.1, List.length_cons]

theorem Walked.call (h : s.Walked maxDepth) {call : WalkCall}
    (hcall : s.call z maxDepth maxWorkingBytes call = some t) :
    t.Walked maxDepth ∧ s.Peaks z call.pathBytes maxWorkingBytes t ∧
      (call.KeepsCapacity s → t.workingBytes z 0 ≤ maxWorkingBytes) := by
  cases call with
  | push fid pathBytes allocates inserted =>
    rw [DirectoryWalkState.call, h.nextDepth] at hcall
    obtain ⟨hwalked, hpeaks, rfl, hchecked⟩ := h.push (ok_of_toOption hcall)
    refine ⟨hwalked, hpeaks, fun hkeeps => ?_⟩
    have hidentity := Nat.mul_le_mul_right z.identity hkeeps
    dsimp only [workingBytes] at hchecked ⊢
    omega
  | finish allocates removed =>
    cases hstack : s.stack.items with
    | nil =>
      rw [DirectoryWalkState.call, hstack] at hcall
      cases hcall
    | cons frame rest =>
      rw [DirectoryWalkState.call, hstack] at hcall
      obtain ⟨hwalked, hpeaks, hworking⟩ := h.finish hstack (ok_of_toOption hcall)
      exact ⟨hwalked, hpeaks, fun _ => hworking⟩

theorem Walked.new {cap : ℕ} (hnew : new z maxDepth maxWorkingBytes (some cap) = .ok s) :
    s.Walked maxDepth ∧ s.workingBytes z 0 ≤ maxWorkingBytes := by
  unfold DirectoryWalkState.new at hnew
  dsimp only at hnew
  split_ifs at hnew with hmin hlarge
  obtain ⟨⟩ := hnew
  exact ⟨⟨rfl, rfl, List.nodup_nil, Nat.zero_le _, trivial⟩, Nat.le_of_not_lt hlarge⟩

end DirectoryWalkState

def Collection.collects (vecBytes itemBytes maxBytes : ℕ) : Machine Collection (ℕ × Bool) where
  init := ⟨⟨[], 0⟩, 0⟩
  step c call := (c.collect vecBytes itemBytes maxBytes call.1 call.2).toOption

def exampleSizes : Sizes := ⟨104, 120, 96, 24⟩

/-- Sixteen directories below the root fill a whole group of a table with 28 slots, so completing
    the innermost one leaves a tombstone. The next directory takes its place, and its path fills
    the budget. -/
def reusedSlotRun : List WalkCall :=
  (List.range 17).map (fun i => .push ⟨1, i⟩ 10 true 28) ++
    [.finish true 27, .push ⟨1, 17⟩ 2854 true 28]

end DufsRam.Listing
