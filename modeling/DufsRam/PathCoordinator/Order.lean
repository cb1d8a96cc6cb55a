import DufsRam.PathCoordinator.Wakeup

/-!
# Earlier requests are granted first

A waiter is compared with a later request by its lexical paths at least, whether its own keys are
being resolved or are known. So a request that conflicts lexically with an earlier one is blocked as
long as the earlier one waits, however often either of them is resolved again.

The order is that of the waiter ids. An id is taken before the waiter is inserted, and a later
request could be granted in between; `RegistersAtOnce` makes the registration one step.

Results:
* `step_request`: what a step does to a request.
* `not_overtaken`: no request is granted before an earlier one with related paths.
-/

namespace DufsRam.PathCoordinator

variable {FS : Type} {r : Resolver FS} {fs : FS} {s s' : System FS} {e : Event FS} {w : ℕ}
  {t : Request}

/-- The waiter is inserted in the step after its id was taken. -/
def RegistersAtOnce (s : System FS) (e : Event FS) : Prop :=
  ∀ w t, s.requests.get w = some t → t.phase = .allocated → e = .insert w

/-- The request was granted or cancelled. -/
def Phase.ended : Phase → Bool
  | .unregistered | .acquired _ | .finished => true
  | _ => false

/-- Two requests contain equal or ancestor-related paths. -/
def Related (left right : List Path) : Prop :=
  ∃ l ∈ left, ∃ r ∈ right, lexicallyConflict l r = true

def WaiterState.lexicalPaths : WaiterState → List Path
  | .resolving lexicalPaths => lexicalPaths
  | .resolved paths => paths.map LeaseKey.lexical

theorem waiterConflicts_of_related {wt : WaiterState} {req : List LeaseKey}
    (h : Related wt.lexicalPaths (req.map LeaseKey.lexical)) :
    waiterConflicts wt req = true := by
  obtain ⟨l, hl, path, hp, hc⟩ := h
  obtain ⟨key, hk, rfl⟩ := List.mem_map.mp hp
  cases wt with
  | resolving lexicalPaths =>
    exact List.any_eq_true.mpr ⟨l, hl, List.any_eq_true.mpr ⟨key, hk, hc⟩⟩
  | resolved ps =>
    obtain ⟨key', hk', rfl⟩ := List.mem_map.mp hl
    refine pathsConflict_iff.mpr ⟨key', hk', key, hk, ?_⟩
    rw [pathKeysConflict, ← lexicallyConflict, hc, Bool.true_or]

/-! ## One step of a request -/

/-- What a step may make of a request. -/
structure Follows (s : System FS) (w : ℕ) (before after : Request) : Prop where
  lexicalPaths : after.lexicalPaths = before.lexicalPaths
  ended : before.phase.ended = true → after.phase.ended = true
  allocated : after.phase ≠ .allocated
  granted : ∀ lease, after.phase = .acquired lease →
    ∃ epoch requested, before.resolvedPaths = some (epoch, requested) ∧
      s.inner.isBlocked requested w = false

theorem step_request (hs : StepCase r s e s') (ht : s'.requests.get w = some t) :
    s.requests.get w = some t ∨
      (t.phase = .allocated ∧ w = s.inner.nextWaiterId ∧ s'.inner.nextWaiterId = w + 1) ∨
      ∃ bef, s.requests.get w = some bef ∧ Follows s w bef t := by
  -- A step that puts one request.
  have put : ∀ {w₀ bef aft}, (s.requests.put w₀ aft).get w = some t →
      s.requests.get w₀ = some bef → Follows s w₀ bef aft →
      s.requests.get w = some t ∨
        (t.phase = .allocated ∧ w = s.inner.nextWaiterId ∧ s'.inner.nextWaiterId = w + 1) ∨
        ∃ bef, s.requests.get w = some bef ∧ Follows s w bef t := by
    intro w₀ bef aft hg hbf hf
    obtain ⟨rfl, rfl⟩ | ⟨-, hold⟩ := Table.get_put_cases hg
    · exact .inr (.inr ⟨bef, hbf, hf⟩)
    · exact .inl hold
  cases hs with
  | allocate ps =>
    obtain ⟨rfl, rfl⟩ | ⟨-, hold⟩ := Table.get_put_cases ht
    · exact .inr (.inl ⟨rfl, rfl, rfl⟩)
    · exact .inl hold
  | dropLease | bumpEpoch | notifyDropped | mutate => exact .inl ht
  | grant _ hw hp hk _ _ hb =>
    exact put ht hw ⟨rfl, fun _ => rfl, nofun, fun _ _ => ⟨_, _, hk, hb⟩⟩
  | cancelAbsent hw | cancel hw | notifyCancelled hw =>
    exact put ht hw ⟨rfl, fun _ => rfl, nofun, nofun⟩
  | observe ph hw hp =>
    obtain ⟨hp, rfl⟩ | ⟨hp, rfl⟩ | ⟨hp, -, rfl⟩ := hp <;>
      exact put ht hw ⟨rfl, fun he => (nomatch hp ▸ he), nofun, nofun⟩
  | insert hw hp | loadEpoch hw hp | keep hw hp | parkBehind hw hp | mark _ hw hp
  | resolve _ hw hp | finishResolving hw hp | stale hw hp | blocked _ hw hp =>
    exact put ht hw ⟨rfl, fun he => (nomatch hp ▸ he), nofun, nofun⟩

/-! ## The paths of the waiters -/

/-- A request that waits is in the waiter map, under the paths it was called with. -/
structure Queued (inner : CoordinatorInner) (w : ℕ) (t : Request) : Prop where
  resolved : ∀ epoch keys, t.resolvedPaths = some (epoch, keys) →
    keys.map LeaseKey.lexical = t.lexicalPaths
  resolving : ∀ epoch keys todo, t.phase = .resolving epoch keys todo →
    keys.map LeaseKey.lexical ++ todo = t.lexicalPaths
  waiting : t.phase.ended = false → t.phase ≠ .allocated →
    ∃ waiter, inner.waiters.get w = some waiter ∧ waiter.lexicalPaths = t.lexicalPaths

def AllQueued (s : System FS) : Prop :=
  ∀ w t, s.requests.get w = some t → Queued s.inner w t

/-- A step of one request leaves the others queued. -/
theorem AllQueued.setRequest (h : AllQueued s) {inner : CoordinatorInner}
    (ho : ∀ w', w' ≠ w → inner.waiters.get w' = s.inner.waiters.get w')
    (hn : Queued inner w t) : AllQueued ({ s with inner := inner }.setRequest w t) := by
  intro w' t' ht'
  obtain ⟨rfl, rfl⟩ | ⟨hne, hold⟩ := Table.get_put_cases ht'
  · exact hn
  · exact { h w' t' hold with waiting := ho w' hne ▸ (h w' t' hold).waiting }

theorem AllQueued.step (h : AllQueued s) (hs : StepCase r s e s') : AllQueued s' := by
  have put : ∀ {w} (waiter : WaiterState), (s.inner.waiters.put w waiter).get w = some waiter :=
    fun _ => by rw [Table.get_put, if_pos rfl]
  have put_ne : ∀ {w} (waiter : WaiterState) w', w' ≠ w →
      (s.inner.waiters.put w waiter).get w' = s.inner.waiters.get w' :=
    fun _ _ hne => by rw [Table.get_put, if_neg hne]
  have erase_ne : ∀ {w} (waiters : Table ℕ WaiterState) w', w' ≠ w →
      (waiters.erase w).get w' = waiters.get w' :=
    fun _ _ hne => by rw [Table.get_erase, if_neg hne]
  cases hs with
  | allocate ps =>
    intro w t ht
    obtain ⟨rfl, rfl⟩ | ⟨-, hold⟩ := Table.get_put_cases ht
    · exact ⟨nofun, nofun, fun _ hne => absurd rfl hne⟩
    · exact { h w t hold with }
  | dropLease | bumpEpoch | notifyDropped | mutate => exact fun w t ht => { h w t ht with }
  | insert hw =>
    exact h.setRequest (put_ne _) ⟨(h _ _ hw).resolved, nofun, fun _ _ => ⟨_, put _, rfl⟩⟩
  | observe ph hw hp =>
    obtain ⟨hp, rfl⟩ | ⟨hp, rfl⟩ | ⟨hp, -, rfl⟩ := hp <;>
      exact h.setRequest (fun _ _ => rfl) ⟨(h _ _ hw).resolved, nofun, fun _ _ =>
        (h _ _ hw).waiting (hp ▸ rfl) (hp ▸ nofun)⟩
  | loadEpoch hw hp | keep hw hp | parkBehind hw hp | stale hw hp =>
    exact h.setRequest (fun _ _ => rfl) ⟨(h _ _ hw).resolved, nofun, fun _ _ =>
      (h _ _ hw).waiting (hp ▸ rfl) (hp ▸ nofun)⟩
  | mark inn hw hp hk hi =>
    obtain rfl | ⟨-, rfl⟩ := hi
    · exact h.setRequest (fun _ _ => rfl) ⟨(h _ _ hw).resolved, fun _ _ _ heq => by cases heq; rfl,
        fun _ _ => (h _ _ hw).waiting (hp ▸ rfl) (hp ▸ nofun)⟩
    · exact h.setRequest (put_ne _) ⟨(h _ _ hw).resolved, fun _ _ _ heq => by cases heq; rfl,
        fun _ _ => ⟨_, put _, rfl⟩⟩
  | resolve _ hw hp =>
    refine h.setRequest (fun _ _ => rfl) ⟨(h _ _ hw).resolved, fun _ _ _ heq => ?_, fun _ _ =>
      (h _ _ hw).waiting (hp ▸ rfl) (hp ▸ nofun)⟩
    cases heq
    rw [List.map_append, List.append_assoc]
    exact (h _ _ hw).resolving _ _ _ hp
  | finishResolving hw hp =>
    refine h.setRequest (fun _ _ => rfl) ⟨fun _ _ heq => ?_, nofun, fun _ _ =>
      (h _ _ hw).waiting (hp ▸ rfl) (hp ▸ nofun)⟩
    cases heq
    exact (List.append_nil _).symm.trans ((h _ _ hw).resolving _ _ _ hp)
  | blocked _ hw hp hk =>
    exact h.setRequest (put_ne _) ⟨(h _ _ hw).resolved, nofun, fun _ _ =>
      ⟨_, put _, (h _ _ hw).resolved _ _ hk⟩⟩
  | grant _ hw =>
    exact h.setRequest (fun w' hne => (erase_ne _ w' hne).trans (put_ne _ w' hne))
      ⟨(h _ _ hw).resolved, nofun, nofun⟩
  | cancelAbsent hw | notifyCancelled hw =>
    exact h.setRequest (fun _ _ => rfl) ⟨(h _ _ hw).resolved, nofun, nofun⟩
  | cancel hw => exact h.setRequest (erase_ne _) ⟨(h _ _ hw).resolved, nofun, nofun⟩

/-! ## The order of the grants -/

/-- The requests with an id below a granted one's are granted or cancelled, where their paths are
    related to its paths. -/
structure GrantedInOrder (s : System FS) : Prop where
  queued : AllQueued s
  allocated : ∀ w t, s.requests.get w = some t → t.phase = .allocated →
    s.inner.nextWaiterId = w + 1
  granted : ∀ first second t t' lease, s.requests.get first = some t →
    s.requests.get second = some t' → first < second → Related t.lexicalPaths t'.lexicalPaths →
    t'.phase = .acquired lease → t.phase.ended = true

/-- Only the id taken last can be without a waiter. -/
theorem allocated_step (hok : RegistersAtOnce s e) (hs : (machine r fs).step s e = some s') :
    ∀ w t, s'.requests.get w = some t → t.phase = .allocated →
      s'.inner.nextWaiterId = w + 1 := by
  by_cases he : ∃ w t, s.requests.get w = some t ∧ t.phase = .allocated
  · -- The step inserts that waiter, and no other id is without one.
    obtain ⟨w₀, t₀, ht₀, hp₀⟩ := he
    obtain rfl := hok w₀ t₀ ht₀ hp₀
    have hs : (s.requests.get w₀).bind (fun t => s.requestStep r w₀ t (.insert w₀)) = some s' :=
      hs
    rw [ht₀, Option.bind_some, System.requestStep, hp₀] at hs
    cases hs
    intro w t ht hp
    obtain ⟨rfl, rfl⟩ | ⟨hne, hold⟩ := Table.get_put_cases ht
    · cases hp
    · exact absurd (Event.insert.inj (hok w t hold hp)).symm hne
  · intro w t ht hp
    obtain hold | ⟨-, -, hn⟩ | ⟨bef, -, hf⟩ := step_request (step_cases hs) ht
    · exact absurd ⟨w, t, hold, hp⟩ he
    · exact hn
    · exact absurd hp hf.allocated

/-- The test under the locks fails while an earlier request with related paths waits. -/
theorem GrantedInOrder.ended_of_not_blocked (h : GrantedInOrder s) {x y epoch : ℕ}
    {t t' : Request} {req : List LeaseKey} (hi : y < s.inner.nextWaiterId)
    (ht : s.requests.get x = some t) (ht' : s.requests.get y = some t')
    (hlt : x < y) (hr : Related t.lexicalPaths t'.lexicalPaths)
    (hk : t'.resolvedPaths = some (epoch, req))
    (hb : s.inner.isBlocked req y = false) : t.phase.ended = true := by
  by_contra he
  rw [Bool.not_eq_true] at he
  have ha : t.phase ≠ .allocated := fun hp => by
    have := h.allocated x t ht hp
    omega
  obtain ⟨wt, hw, hl⟩ := (h.queued x t ht).waiting he ha
  have hc : waiterConflicts wt req = true := waiterConflicts_of_related (by
    rwa [hl, (h.queued y t' ht').resolved epoch req hk])
  have her : s.inner.earlierWaiter y (waiterConflicts · req) = true :=
    Table.any_iff.mpr ⟨x, wt, hw, by
      rw [decide_eq_true hlt, Bool.true_and]
      exact hc⟩
  rw [CoordinatorInner.isBlocked, her, Bool.or_true] at hb
  cases hb

theorem GrantedInOrder.step (h : GrantedInOrder s) (hw : Wakeup s) (hok : RegistersAtOnce s e)
    (hst : (machine r fs).step s e = some s') : GrantedInOrder s' := by
  have hs := step_cases hst
  refine ⟨h.queued.step hs, allocated_step hok hst, ?_⟩
  intro x y t t' l ht ht' hlt hr hp
  -- The later request as it was before the step, granted already or by this step.
  obtain ⟨bef', hb', hl', hgr⟩ :
      ∃ bef', s.requests.get y = some bef' ∧ t'.lexicalPaths = bef'.lexicalPaths ∧
        ((∃ l, bef'.phase = .acquired l) ∨ ∃ epoch req, bef'.resolvedPaths =
          some (epoch, req) ∧ s.inner.isBlocked req y = false) := by
    obtain hold | ⟨hn, -⟩ | ⟨bef', hb', hf⟩ := step_request hs ht'
    · exact ⟨t', hold, rfl, .inl ⟨l, hp⟩⟩
    · cases hn.symm.trans hp
    · exact ⟨bef', hb', hf.lexicalPaths, .inr (hf.granted l hp)⟩
  rw [hl'] at hr
  have hi := (hw y bef' hb').issued
  -- What was ended before the step is ended after it.
  have ended : ∀ bef, s.requests.get x = some bef →
      Related bef.lexicalPaths bef'.lexicalPaths → bef.phase.ended = true := by
    intro bef hbf hr
    obtain ⟨l', hp'⟩ | ⟨epoch, req, hk, hb⟩ := hgr
    · exact h.granted x y bef bef' l' hbf hb' hlt hr hp'
    · exact h.ended_of_not_blocked hi hbf hb' hlt hr hk hb
  obtain hold | ⟨-, rfl, -⟩ | ⟨bef, hbf, hf⟩ := step_request hs ht
  · exact ended t hold hr
  · exact absurd hi (Nat.lt_asymm hlt)
  · exact hf.ended (ended bef hbf (hf.lexicalPaths ▸ hr))

/-- Where registration is one step, a request whose paths are related to those of an earlier one is
    granted only when the earlier one has been granted or cancelled. -/
theorem not_overtaken (hs : (machine r fs).Reachable RegistersAtOnce s) {first second lease : ℕ}
    {t t' : Request} (ht : s.requests.get first = some t) (ht' : s.requests.get second = some t')
    (hlt : first < second) (hrelated : Related t.lexicalPaths t'.lexicalPaths)
    (hgranted : t'.phase = .acquired lease) :
    (∃ lease', t.phase = .acquired lease') ∨ t.phase = .unregistered ∨ t.phase = .finished := by
  have hi : GrantedInOrder s := hs.invariant ⟨nofun, nofun, nofun⟩
    fun _ _ _ hr h hok hst => h.step (reachable_wakeup hr) hok hst
  have he := hi.granted first second t t' lease ht ht' hlt hrelated hgranted
  revert he
  cases t.phase <;> simp [Phase.ended]

/-- `RegistersAtOnce`, as a test. -/
def registersAtOnce (s : System FS) (e : Event FS) : Bool :=
  s.requests.rows.all fun row => decide (row.2.phase ≠ .allocated) ||
    match e with
    | .insert w => decide (w = row.1)
    | _ => false

theorem registersAtOnce_sound (h : registersAtOnce s e = true) : RegistersAtOnce s e := by
  intro w t ht hp
  have hr := List.all_eq_true.mp h _ (Table.get_eq_some_iff.mp ht)
  rw [hp, decide_eq_false (not_not_intro rfl), Bool.false_or] at hr
  split at hr
  · rw [of_decide_eq_true hr]
  · cases hr

/-- Both of two requests for `a` are granted, one after the other. -/
def bothGranted (s : System Unit) : Bool :=
  decide (((s.requests.get 1).map fun t => (t.lexicalPaths, t.phase)) =
      some ([["a"]], .acquired 1)) &&
    decide (((s.requests.get 2).map fun t => (t.lexicalPaths, t.phase)) =
      some ([["a"]], .acquired 2))

theorem second_granted_after_first :
    ∃ s : System Unit, (machine flatResolver ()).Reachable RegistersAtOnce s ∧
      bothGranted s = true ∧ ∃ t, s.requests.get 1 = some t ∧
        ((∃ lease', t.phase = .acquired lease') ∨ t.phase = .unregistered ∨
          t.phase = .finished) := by
  obtain ⟨s, hs, hp⟩ := ((machine flatResolver ()).guarded registersAtOnce).exists_reachable_of_run
    (acquireRun 1 ++ [.dropLease 1, .bumpEpoch, .notifyDropped] ++ acquireRun 2) bothGranted
    (fun _ _ _ => trivial) (by decide)
  have hr := hs.of_guarded fun _ _ => registersAtOnce_sound
  have hb := hp
  rw [bothGranted, Bool.and_eq_true, decide_eq_true_iff, decide_eq_true_iff] at hb
  obtain ⟨t, ht, hpr⟩ := Option.map_eq_some_iff.mp hb.1
  obtain ⟨t', ht', hpr'⟩ := Option.map_eq_some_iff.mp hb.2
  obtain ⟨hl, -⟩ := Prod.mk.inj hpr
  obtain ⟨hl', hp'⟩ := Prod.mk.inj hpr'
  refine ⟨s, hr, hp, t, ht, not_overtaken hr ht ht' (by decide) ?_ hp'⟩
  rw [hl, hl']
  exact ⟨["a"], List.mem_singleton_self _, ["a"], List.mem_singleton_self _, by decide⟩

end DufsRam.PathCoordinator
