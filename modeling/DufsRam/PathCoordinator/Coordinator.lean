import Mathlib
import DufsRam.Lib.Machine
import DufsRam.Lib.Table
import DufsRam.PathCoordinator.Conflict

/-!
# The path coordinator

Model of `path_coordinator.rs`: the shared maps (`CoordinatorInner`), the acquire
loop of every request (`acquire_inner`), the two `Drop` implementations, and the
filesystem changes that lease holders make.

The state machine takes one step for each access to shared state that other tasks
can observe. `try_acquire` is a single step: it runs under the lease lock and the
waiter lock, and what it writes before its last access cannot be read without one
of them. `PathLease::drop` is three steps under the lease lock, and the drop of a
`WaiterRegistration` is two, because the epoch and the `changes` channel are read
without a lock. Counters are natural numbers: none of them can reach `2 ^ 64`.

Results:
* `step_cases`: everything a step can do, with its guards.
-/

namespace DufsRam.PathCoordinator

/-! ## Shared state -/

/-- `WaiterState` (lines 60-63). -/
inductive WaiterState where
  | resolving (lexicalPaths : List Path)
  | resolved (paths : List LeaseKey)
deriving DecidableEq

/-- `waiter_conflicts` (lines 601-614). -/
def waiterConflicts (waiter : WaiterState) (requested : List LeaseKey) : Bool :=
  match waiter with
  | .resolving lexicalPaths =>
    lexicalPaths.any fun left => requested.any fun right => lexicallyConflict left right.lexical
  | .resolved paths => pathsConflict paths requested

/-- `waiter_lexically_conflicts` (lines 616-629). -/
def waiterLexicallyConflicts (waiter : WaiterState) (requested : List Path) : Bool :=
  match waiter with
  | .resolving lexicalPaths =>
    lexicalPaths.any fun left => requested.any fun right => lexicallyConflict left right
  | .resolved paths =>
    paths.any fun left => requested.any fun right => lexicallyConflict left.lexical right

/-- `CoordinatorInner` (lines 24-38). `changes` is the version of the watch channel. -/
structure CoordinatorInner where
  leases : Table ℕ (List LeaseKey)
  waiters : Table ℕ WaiterState
  nextId : ℕ
  nextWaiterId : ℕ
  leaseEpoch : ℕ
  changes : ℕ

/-- `PathCoordinator::new` (lines 84-105). -/
def CoordinatorInner.new : CoordinatorInner where
  leases := .empty
  waiters := .empty
  nextId := 1
  nextWaiterId := 1
  leaseEpoch := 0
  changes := 0

/-- `changes.send_modify(|version| …)`. -/
def CoordinatorInner.notify (inner : CoordinatorInner) : CoordinatorInner :=
  { inner with changes := inner.changes + 1 }

/-- The `any` over `waiters.range(..id)`. -/
def CoordinatorInner.earlierWaiter (inner : CoordinatorInner) (id : ℕ) (p : WaiterState → Bool) :
    Bool :=
  inner.waiters.any fun id' earlier => decide (id' < id) && p earlier

/-- `mark_resolving_if_eligible` (lines 502-525). -/
def CoordinatorInner.markResolvingIfEligible (inner : CoordinatorInner) (id : ℕ)
    (lexicalPaths : List Path) (previousPaths : Option (List LeaseKey)) :
    Bool × CoordinatorInner :=
  let blockedByEarlier := inner.earlierWaiter id fun earlier =>
    match previousPaths with
    | none => waiterLexicallyConflicts earlier lexicalPaths
    | some paths => waiterConflicts earlier paths
  if blockedByEarlier then (false, inner)
  else
    match inner.waiters.get id with
    | none => (true, inner)
    | some _ => (true, { inner with waiters := inner.waiters.put id (.resolving lexicalPaths) })

/-- `AcquireAttempt` (lines 77-81); `acquired` carries the id of the new lease. -/
inductive AcquireAttempt where
  | acquired (id : ℕ)
  | blocked
  | stale
deriving DecidableEq

/-- The blocking test of `try_acquire` (lines 322-325). -/
def CoordinatorInner.isBlocked (inner : CoordinatorInner) (requested : List LeaseKey)
    (waiterId : ℕ) : Bool :=
  inner.leases.any (fun _ held => pathsConflict held requested) ||
    inner.earlierWaiter waiterId fun earlier => waiterConflicts earlier requested

/-- `matches!(waiter, WaiterState::Resolving(_))`. -/
def WaiterState.isResolving : WaiterState → Bool
  | .resolving _ => true
  | .resolved _ => false

/-- `try_acquire` (lines 297-353). -/
def CoordinatorInner.tryAcquire (inner : CoordinatorInner) (requested : List LeaseKey)
    (expectedEpoch waiterId : ℕ) : AcquireAttempt × CoordinatorInner :=
  if inner.leaseEpoch ≠ expectedEpoch then (.stale, inner)
  else
    match inner.waiters.get waiterId with
    | none => (.stale, inner)
    | some waiter =>
      let becameResolved := waiter.isResolving
      let marked := { inner with waiters := inner.waiters.put waiterId (.resolved requested) }
      if marked.isBlocked requested waiterId then
        (.blocked, if becameResolved then marked.notify else marked)
      else
        let id := marked.nextId
        (.acquired id,
          { marked with
            nextId := id + 1
            waiters := marked.waiters.erase waiterId
            leases := marked.leases.put id requested }.notify)

/-! ## Requests -/

/-- What the coordinator asks of `RootedFs`, over the states `FS` of the filesystem:
    `resolved_path_key` answers `none` for an error. -/
structure Resolver (FS : Type) where
  rootIdentity : FileIdentity
  resolvedPathKey : FS → Path → Option ResolvedPathKey

/-- The key the filesystem gives for a path. A path that cannot be resolved has the
    conservative root key (lines 166-177). -/
def Resolver.keyOf {FS : Type} (r : Resolver FS) (fs : FS) (path : Path) : ResolvedPathKey :=
  (r.resolvedPathKey fs path).getD (conservativePathKey r.rootIdentity)

/-- A shared root without subdirectories, for concrete runs. -/
def flatResolver : Resolver Unit where
  rootIdentity := ⟨1, 2⟩
  resolvedPathKey := fun _ path => some
    { resolvedParent := ⟨1, 2⟩, unresolvedTail := path, ancestorDirectories := [⟨1, 2⟩],
      targetDirectory := none }

/-- The program points of `acquire_inner` (lines 144-215) and of the drop of its
    registration (lines 532-550) between which other tasks can run. -/
inductive Phase where
  /-- The waiter id is taken, the waiter not yet inserted. -/
  | allocated
  | inserted
  | loopTop
  | updated
  | loaded (expectedEpoch : ℕ)
  | resolving (expectedEpoch : ℕ) (paths : List LeaseKey) (todo : List Path)
  | attempting (expectedEpoch : ℕ)
  /-- Waiting in `changes.changed().await`. -/
  | parked
  /-- Dropped: the waiter is removed, `changes` not yet modified. -/
  | unregistered
  | acquired (lease : ℕ)
  | finished
deriving DecidableEq

/-- One call of `acquire_inner`, known by its waiter id. `seen` is the version its
    receiver has marked as seen. `failed` is ghost state: the paths whose resolution
    failed when `paths` was last computed. -/
structure Request where
  lexicalPaths : List Path
  seen : ℕ
  resolvedPaths : Option (ℕ × List LeaseKey)
  failed : List Path
  phase : Phase
deriving DecidableEq

/-- `lexical_paths.sort(); lexical_paths.dedup()` (lines 136-141). -/
def lexicalPathsOf (paths : List Path) : List Path :=
  (paths.insertionSort (· ≤ ·)).dedup

/-- How far a `PathLease::drop` that holds the lease lock has come (lines 559-563). -/
inductive DropStage where
  | removed
  | epochBumped
deriving DecidableEq

/-- The coordinator, its requests, the drop in progress and the filesystem. -/
structure System (FS : Type) where
  inner : CoordinatorInner
  requests : Table ℕ Request
  dropping : Option DropStage
  fs : FS

/-- One step of a request, of a lease holder, or of a drop. -/
inductive Event (FS : Type) where
  | allocate (paths : List Path)
  | insert (waiter : ℕ)
  | subscribe (waiter : ℕ)
  | borrowAndUpdate (waiter : ℕ)
  | loadEpoch (waiter : ℕ)
  | checkEpoch (waiter : ℕ)
  | resolve (waiter : ℕ) (succeeds : Bool)
  | finishResolving (waiter : ℕ)
  | tryAcquire (waiter : ℕ)
  | changed (waiter : ℕ)
  | cancel (waiter : ℕ)
  | notifyCancelled (waiter : ℕ)
  | dropLease (lease : ℕ)
  | bumpEpoch
  | notifyDropped
  | mutate (lease : ℕ) (fs : FS)

variable {FS : Type}

def System.setRequest (s : System FS) (waiter : ℕ) (t : Request) : System FS :=
  { s with requests := s.requests.put waiter t }

/-- Lines 151-163: go on with the current keys, or mark the waiter as resolving, or
    park behind an earlier waiter. -/
def System.checkEpoch (s : System FS) (waiter : ℕ) (t : Request) (expectedEpoch : ℕ) : System FS :=
  if t.resolvedPaths.any fun paths => decide (paths.1 = expectedEpoch) then
    s.setRequest waiter { t with phase := .attempting expectedEpoch }
  else
    match s.inner.markResolvingIfEligible waiter t.lexicalPaths (t.resolvedPaths.map Prod.snd) with
    | (false, _) => s.setRequest waiter { t with phase := .parked }
    | (true, inner) =>
      { s with inner := inner }.setRequest waiter
        { t with failed := [], phase := .resolving expectedEpoch [] t.lexicalPaths }

/-- Lines 165-182, for one path. -/
def System.resolve (r : Resolver FS) (s : System FS) (waiter : ℕ) (t : Request)
    (expectedEpoch : ℕ) (paths : List LeaseKey) (lexical : Path) (todo : List Path)
    (succeeds : Bool) : System FS :=
  let resolved := if succeeds then r.keyOf s.fs lexical else conservativePathKey r.rootIdentity
  s.setRequest waiter
    { t with
      failed := if succeeds then t.failed else t.failed ++ [lexical]
      phase := .resolving expectedEpoch (paths ++ [⟨lexical, resolved⟩]) todo }

/-- Lines 194-211. -/
def System.tryAcquire (s : System FS) (waiter : ℕ) (t : Request) (expectedEpoch : ℕ)
    (requested : List LeaseKey) : System FS :=
  match s.inner.tryAcquire requested expectedEpoch waiter with
  | (.acquired lease, inner) =>
    { s with inner := inner }.setRequest waiter { t with phase := .acquired lease }
  | (.stale, inner) => { s with inner := inner }.setRequest waiter { t with phase := .loopTop }
  | (.blocked, inner) => { s with inner := inner }.setRequest waiter { t with phase := .parked }

/-- The first half of `WaiterRegistration::drop` (lines 537-543). -/
def System.cancel (s : System FS) (waiter : ℕ) (t : Request) : System FS :=
  match s.inner.waiters.get waiter with
  | none => s.setRequest waiter { t with phase := .finished }
  | some _ =>
    { s with inner := { s.inner with waiters := s.inner.waiters.erase waiter } }.setRequest waiter
      { t with phase := .unregistered }

/-- Step of a request that is at a given point of its program. -/
def System.requestStep (r : Resolver FS) (s : System FS) (waiter : ℕ) (t : Request) :
    Event FS → Option (System FS)
  | .insert _ =>
    match t.phase with
    | .allocated =>
      some ({ s with inner :=
          { s.inner with
            waiters := s.inner.waiters.put waiter (.resolving t.lexicalPaths) } }.setRequest
        waiter { t with phase := .inserted })
    | _ => none
  | .subscribe _ =>
    match t.phase with
    | .inserted => some (s.setRequest waiter { t with seen := s.inner.changes, phase := .loopTop })
    | _ => none
  | .borrowAndUpdate _ =>
    match t.phase with
    | .loopTop => some (s.setRequest waiter { t with seen := s.inner.changes, phase := .updated })
    | _ => none
  | .loadEpoch _ =>
    match t.phase with
    | .updated => some (s.setRequest waiter { t with phase := .loaded s.inner.leaseEpoch })
    | _ => none
  | .checkEpoch _ =>
    match t.phase with
    | .loaded expectedEpoch => some (s.checkEpoch waiter t expectedEpoch)
    | _ => none
  | .resolve _ succeeds =>
    match t.phase with
    | .resolving expectedEpoch paths (lexical :: todo) =>
      some (s.resolve r waiter t expectedEpoch paths lexical todo succeeds)
    | _ => none
  | .finishResolving _ =>
    match t.phase with
    | .resolving expectedEpoch paths [] =>
      some (s.setRequest waiter
        { t with
          resolvedPaths := some (expectedEpoch, paths)
          phase := .attempting expectedEpoch })
    | _ => none
  | .tryAcquire _ =>
    -- `try_acquire` waits for the lease lock while a drop holds it.
    match t.phase, t.resolvedPaths, s.dropping with
    | .attempting expectedEpoch, some (_, requested), none =>
      some (s.tryAcquire waiter t expectedEpoch requested)
    | _, _, _ => none
  | .changed _ =>
    match t.phase with
    | .parked =>
      if t.seen = s.inner.changes then none
      else some (s.setRequest waiter { t with seen := s.inner.changes, phase := .loopTop })
    | _ => none
  | .cancel _ =>
    -- A future is dropped only while it is suspended at an `await`.
    match t.phase with
    | .parked => some (s.cancel waiter t)
    | .resolving _ _ _ => some (s.cancel waiter t)
    | _ => none
  | .notifyCancelled _ =>
    match t.phase with
    | .unregistered =>
      some ({ s with inner := s.inner.notify }.setRequest waiter { t with phase := .finished })
    | _ => none
  | _ => none

/-- One step of the system. -/
def System.step (r : Resolver FS) (s : System FS) : Event FS → Option (System FS)
  | .allocate paths =>
    some
      { s with
        inner := { s.inner with nextWaiterId := s.inner.nextWaiterId + 1 }
        requests := s.requests.put s.inner.nextWaiterId
          { lexicalPaths := lexicalPathsOf paths, seen := 0, resolvedPaths := none, failed := [],
            phase := .allocated } }
  | .dropLease lease =>
    match s.inner.leases.get lease, s.dropping with
    | some _, none =>
      some
        { s with
          inner := { s.inner with leases := s.inner.leases.erase lease }
          dropping := some .removed }
    | _, _ => none
  | .bumpEpoch =>
    match s.dropping with
    | some .removed =>
      some
        { s with
          inner := { s.inner with leaseEpoch := s.inner.leaseEpoch + 1 }
          dropping := some .epochBumped }
    | _ => none
  | .notifyDropped =>
    match s.dropping with
    | some .epochBumped => some { s with inner := s.inner.notify, dropping := none }
    | _ => none
  | .mutate lease fs => (s.inner.leases.get lease).map fun _ => { s with fs := fs }
  | .insert w => (s.requests.get w).bind fun t => s.requestStep r w t (.insert w)
  | .subscribe w => (s.requests.get w).bind fun t => s.requestStep r w t (.subscribe w)
  | .borrowAndUpdate w => (s.requests.get w).bind fun t => s.requestStep r w t (.borrowAndUpdate w)
  | .loadEpoch w => (s.requests.get w).bind fun t => s.requestStep r w t (.loadEpoch w)
  | .checkEpoch w => (s.requests.get w).bind fun t => s.requestStep r w t (.checkEpoch w)
  | .resolve w ok => (s.requests.get w).bind fun t => s.requestStep r w t (.resolve w ok)
  | .finishResolving w => (s.requests.get w).bind fun t => s.requestStep r w t (.finishResolving w)
  | .tryAcquire w => (s.requests.get w).bind fun t => s.requestStep r w t (.tryAcquire w)
  | .changed w => (s.requests.get w).bind fun t => s.requestStep r w t (.changed w)
  | .cancel w => (s.requests.get w).bind fun t => s.requestStep r w t (.cancel w)
  | .notifyCancelled w => (s.requests.get w).bind fun t => s.requestStep r w t (.notifyCancelled w)

/-- The coordinator with no request, on the filesystem `fs`. -/
def machine (r : Resolver FS) (fs : FS) : Machine (System FS) (Event FS) where
  init := { inner := .new, requests := .empty, dropping := none, fs := fs }
  step := System.step r

/-! ## What a step can do -/

/-- The effect of `mark_resolving_if_eligible` when it succeeds. -/
theorem CoordinatorInner.markResolvingIfEligible_true {inn inn' : CoordinatorInner} {id : ℕ}
    {lexicalPaths : List Path} {previousPaths : Option (List LeaseKey)}
    (h : inn.markResolvingIfEligible id lexicalPaths previousPaths = (true, inn')) :
    inn' = inn ∨ (∃ w, inn.waiters.get id = some w) ∧
      inn' = { inn with waiters := inn.waiters.put id (.resolving lexicalPaths) } := by
  unfold markResolvingIfEligible at h
  dsimp only at h
  split_ifs at h with hb
  · cases h
  cases hw : inn.waiters.get id with
  | none =>
    rw [hw] at h
    exact .inl (Prod.mk.inj h).2.symm
  | some w =>
    rw [hw] at h
    exact .inr ⟨⟨w, rfl⟩, (Prod.mk.inj h).2.symm⟩

/-- `mark_resolving_if_eligible` fails only behind an earlier waiter. -/
theorem CoordinatorInner.markResolvingIfEligible_false {inn inn' : CoordinatorInner} {id : ℕ}
    {lexicalPaths : List Path} {previousPaths : Option (List LeaseKey)}
    (h : inn.markResolvingIfEligible id lexicalPaths previousPaths = (false, inn')) :
    ∃ id' waiter, id' < id ∧ inn.waiters.get id' = some waiter := by
  unfold markResolvingIfEligible at h
  dsimp only at h
  split_ifs at h with hb
  · obtain ⟨id', waiter, hg, hp⟩ := Table.any_iff.mp hb
    rw [Bool.and_eq_true, decide_eq_true_iff] at hp
    exact ⟨id', waiter, hp.1, hg⟩
  · cases hw : inn.waiters.get id <;> rw [hw] at h <;> cases h

/-- Everything a step can do, with the guards that later proofs need. -/
inductive StepCase (r : Resolver FS) (s : System FS) (e : Event FS) : System FS → Prop
  | allocate (paths : List Path) :
      StepCase r s e
        { s with
          inner := { s.inner with nextWaiterId := s.inner.nextWaiterId + 1 }
          requests := s.requests.put s.inner.nextWaiterId
            { lexicalPaths := lexicalPathsOf paths, seen := 0, resolvedPaths := none, failed := [],
              phase := .allocated } }
  | insert {w t} (ht : s.requests.get w = some t) (hp : t.phase = .allocated) :
      StepCase r s e ({ s with inner :=
          { s.inner with
            waiters := s.inner.waiters.put w (.resolving t.lexicalPaths) } }.setRequest
        w { t with phase := .inserted })
  | observe {w t} (phase : Phase) (ht : s.requests.get w = some t)
      (hp : t.phase = .inserted ∧ phase = .loopTop ∨ t.phase = .loopTop ∧ phase = .updated ∨
        t.phase = .parked ∧ t.seen ≠ s.inner.changes ∧ phase = .loopTop) :
      StepCase r s e (s.setRequest w { t with seen := s.inner.changes, phase := phase })
  | loadEpoch {w t} (ht : s.requests.get w = some t) (hp : t.phase = .updated) :
      StepCase r s e (s.setRequest w { t with phase := .loaded s.inner.leaseEpoch })
  | keep {w t epoch keys} (ht : s.requests.get w = some t) (hp : t.phase = .loaded epoch)
      (hk : t.resolvedPaths = some (epoch, keys)) :
      StepCase r s e (s.setRequest w { t with phase := .attempting epoch })
  | parkBehind {w t epoch id' waiter} (ht : s.requests.get w = some t)
      (hp : t.phase = .loaded epoch) (hlt : id' < w) (hw : s.inner.waiters.get id' = some waiter) :
      StepCase r s e (s.setRequest w { t with phase := .parked })
  | mark {w t epoch} (inner : CoordinatorInner) (ht : s.requests.get w = some t)
      (hp : t.phase = .loaded epoch) (hk : ∀ keys, t.resolvedPaths ≠ some (epoch, keys))
      (hi : inner = s.inner ∨ (∃ waiter, s.inner.waiters.get w = some waiter) ∧
        inner = { s.inner with waiters := s.inner.waiters.put w (.resolving t.lexicalPaths) }) :
      StepCase r s e ({ s with inner := inner }.setRequest w
        { t with failed := [], phase := .resolving epoch [] t.lexicalPaths })
  | resolve {w t epoch paths lexical todo} (succeeds : Bool) (ht : s.requests.get w = some t)
      (hp : t.phase = .resolving epoch paths (lexical :: todo)) :
      StepCase r s e (s.resolve r w t epoch paths lexical todo succeeds)
  | finishResolving {w t epoch paths} (ht : s.requests.get w = some t)
      (hp : t.phase = .resolving epoch paths []) :
      StepCase r s e (s.setRequest w
        { t with resolvedPaths := some (epoch, paths), phase := .attempting epoch })
  | stale {w t epoch} (ht : s.requests.get w = some t) (hp : t.phase = .attempting epoch) :
      StepCase r s e (s.setRequest w { t with phase := .loopTop })
  | blocked {w t epoch epoch' requested waiter} (notify : Bool) (ht : s.requests.get w = some t)
      (hp : t.phase = .attempting epoch) (hk : t.resolvedPaths = some (epoch', requested))
      (hw : s.inner.waiters.get w = some waiter) (hb : s.inner.isBlocked requested w = true) :
      StepCase r s e
        ({ s with inner :=
            { s.inner with
              waiters := s.inner.waiters.put w (.resolved requested)
              changes := if notify then s.inner.changes + 1 else s.inner.changes } }.setRequest w
          { t with phase := .parked })
  | grant {w t epoch' requested waiter} (he : e = .tryAcquire w) (ht : s.requests.get w = some t)
      (hp : t.phase = .attempting s.inner.leaseEpoch)
      (hk : t.resolvedPaths = some (epoch', requested)) (hd : s.dropping = none)
      (hw : s.inner.waiters.get w = some waiter) (hb : s.inner.isBlocked requested w = false) :
      StepCase r s e
        ({ s with inner :=
            { s.inner with
              nextId := s.inner.nextId + 1
              waiters := (s.inner.waiters.put w (.resolved requested)).erase w
              leases := s.inner.leases.put s.inner.nextId requested
              changes := s.inner.changes + 1 } }.setRequest w
          { t with phase := .acquired s.inner.nextId })
  | cancelAbsent {w t} (ht : s.requests.get w = some t) (hw : s.inner.waiters.get w = none)
      (hp : t.phase = .parked ∨ ∃ epoch paths todo, t.phase = .resolving epoch paths todo) :
      StepCase r s e (s.setRequest w { t with phase := .finished })
  | cancel {w t} (ht : s.requests.get w = some t)
      (hp : t.phase = .parked ∨ ∃ epoch paths todo, t.phase = .resolving epoch paths todo) :
      StepCase r s e
        ({ s with inner := { s.inner with waiters := s.inner.waiters.erase w } }.setRequest w
          { t with phase := .unregistered })
  | notifyCancelled {w t} (ht : s.requests.get w = some t) (hp : t.phase = .unregistered) :
      StepCase r s e
        ({ s with inner := s.inner.notify }.setRequest w { t with phase := .finished })
  | dropLease {lease held} (hl : s.inner.leases.get lease = some held) (hd : s.dropping = none) :
      StepCase r s e
        { s with
          inner := { s.inner with leases := s.inner.leases.erase lease }
          dropping := some .removed }
  | bumpEpoch (hd : s.dropping = some .removed) :
      StepCase r s e
        { s with
          inner := { s.inner with leaseEpoch := s.inner.leaseEpoch + 1 }
          dropping := some .epochBumped }
  | notifyDropped (hd : s.dropping = some .epochBumped) :
      StepCase r s e { s with inner := s.inner.notify, dropping := none }
  | mutate {lease held} (fs : FS) (he : e = .mutate lease fs)
      (hl : s.inner.leases.get lease = some held) :
      StepCase r s e { s with fs := fs }

theorem CoordinatorInner.isBlocked_put (inn : CoordinatorInner) (req : List LeaseKey)
    (id : ℕ) (w : WaiterState) :
    { inn with waiters := inn.waiters.put id w }.isBlocked req id =
      inn.isBlocked req id := by
  unfold isBlocked
  congr 1
  unfold earlierWaiter
  rw [Bool.eq_iff_iff, Table.any_iff, Table.any_iff]
  refine exists₂_congr fun id' earlier => ?_
  rw [Table.get_put]
  -- The row that changed is not below `id`.
  split_ifs with h
  · simp [h]
  · rfl

variable {s : System FS} {e : Event FS} {t : Request}

theorem checkEpoch_case (r : Resolver FS) {w : ℕ} {epoch : ℕ} (ht : s.requests.get w = some t)
    (hp : t.phase = .loaded epoch) :
    StepCase r s e (s.checkEpoch w t epoch) := by
  unfold System.checkEpoch
  split_ifs with hc
  · rw [Option.any_eq_true] at hc
    obtain ⟨⟨epoch', keys⟩, hk, heq⟩ := hc
    obtain rfl : epoch' = epoch := by simpa using heq
    exact .keep ht hp hk
  · rcases hm : s.inner.markResolvingIfEligible w t.lexicalPaths (t.resolvedPaths.map Prod.snd)
      with ⟨_ | _, inner⟩
    · obtain ⟨id', wt, hlt, hw⟩ := CoordinatorInner.markResolvingIfEligible_false hm
      exact .parkBehind ht hp hlt hw
    · have hk : ∀ keys, t.resolvedPaths ≠ some (epoch, keys) := fun keys hk =>
        hc (by rw [hk]; exact decide_eq_true rfl)
      exact .mark inner ht hp hk (CoordinatorInner.markResolvingIfEligible_true hm)

theorem tryAcquire_case (r : Resolver FS) {w : ℕ} {epoch epoch' : ℕ} {req : List LeaseKey}
    (ht : s.requests.get w = some t) (hp : t.phase = .attempting epoch)
    (hk : t.resolvedPaths = some (epoch', req)) (hd : s.dropping = none) :
    StepCase r s (.tryAcquire w) (s.tryAcquire w t epoch req) := by
  unfold System.tryAcquire CoordinatorInner.tryAcquire
  by_cases he : s.inner.leaseEpoch = epoch
  · subst he
    rw [if_neg (not_not_intro rfl)]
    cases hw : s.inner.waiters.get w with
    | none => exact .stale ht hp
    | some wt =>
      dsimp only
      rw [CoordinatorInner.isBlocked_put]
      cases hb : s.inner.isBlocked req w with
      | false => exact .grant rfl ht hp hk hd hw hb
      | true =>
        have := StepCase.blocked (r := r) (e := .tryAcquire w) wt.isResolving ht hp hk hw hb
        cases hr : wt.isResolving <;> rw [hr] at this <;> exact this
  · rw [if_pos he]
    exact .stale ht hp

theorem cancel_case (r : Resolver FS) {w : ℕ} (ht : s.requests.get w = some t)
    (hp : t.phase = .parked ∨ ∃ epoch ps todo, t.phase = .resolving epoch ps todo) :
    StepCase r s e (s.cancel w t) := by
  unfold System.cancel
  cases hw : s.inner.waiters.get w with
  | none => exact .cancelAbsent ht hw hp
  | some => exact .cancel ht hp

theorem requestStep_cases {r : Resolver FS} {s' : System FS} {w : ℕ}
    (ht : s.requests.get w = some t) (he : ∀ w', e = .tryAcquire w' → w' = w)
    (h : s.requestStep r w t e = some s') : StepCase r s e s' := by
  unfold System.requestStep at h
  split at h
  · split at h
    · cases h; exact .insert ht ‹_›
    · cases h
  · split at h
    · cases h; exact .observe _ ht (.inl ⟨‹_›, rfl⟩)
    · cases h
  · split at h
    · cases h; exact .observe _ ht (.inr (.inl ⟨‹_›, rfl⟩))
    · cases h
  · split at h
    · cases h; exact .loadEpoch ht ‹_›
    · cases h
  · split at h
    · cases h; exact checkEpoch_case r ht ‹_›
    · cases h
  · split at h
    · cases h; exact .resolve _ ht ‹_›
    · cases h
  · split at h
    · cases h; exact .finishResolving ht ‹_›
    · cases h
  · split at h
    · cases h
      obtain rfl := he _ rfl
      exact tryAcquire_case r ht ‹_› ‹_› ‹_›
    · cases h
  · split at h
    · split_ifs at h with hs
      · cases h; exact .observe _ ht (.inr (.inr ⟨‹_›, hs, rfl⟩))
    · cases h
  · split at h
    · cases h; exact cancel_case r ht (.inl ‹_›)
    · cases h; exact cancel_case r ht (.inr ⟨_, _, _, ‹_›⟩)
    · cases h
  · split at h
    · cases h; exact .notifyCancelled ht ‹_›
    · cases h
  · cases h

/-- Every step is one of the cases of `StepCase`. -/
theorem step_cases {r : Resolver FS} {fs : FS} {s' : System FS}
    (h : (machine r fs).step s e = some s') : StepCase r s e s' := by
  replace h : s.step r e = some s' := h
  -- An event of a request is a step of that request at its program point.
  have request : ∀ {w : ℕ}, (∀ w', e = .tryAcquire w' → w' = w) →
      ((s.requests.get w).bind fun t => s.requestStep r w t e) = some s' → StepCase r s e s' := by
    intro w he h
    obtain ⟨t, ht, hs⟩ := Option.bind_eq_some_iff.mp h
    exact requestStep_cases ht he hs
  cases e with
  | allocate ps => cases h; exact .allocate ps
  | dropLease l =>
    simp only [System.step] at h
    split at h
    · cases h; exact .dropLease ‹_› ‹_›
    · cases h
  | bumpEpoch =>
    simp only [System.step] at h
    split at h
    · cases h; exact .bumpEpoch ‹_›
    · cases h
  | notifyDropped =>
    simp only [System.step] at h
    split at h
    · cases h; exact .notifyDropped ‹_›
    · cases h
  | mutate l fs =>
    obtain ⟨held, hl, rfl⟩ := Option.map_eq_some_iff.mp h
    exact .mutate fs rfl hl
  | tryAcquire w => exact request (fun w' hw => by cases hw; rfl) h
  | insert | subscribe | borrowAndUpdate | loadEpoch | checkEpoch | resolve | finishResolving
  | changed | cancel | notifyCancelled => exact request (fun _ hw => by cases hw) h

end DufsRam.PathCoordinator
