import DufsRam.PathCoordinator.Coordinator

/-!
# No lost wakeup

A request parks in `changes.changed()` only behind a cause: an earlier waiter or a
live lease. A cause goes away silently nowhere: granting a waiter modifies `changes`
in the same step, and the two drops modify it after they have removed their entry.
An earlier waiter that falls back from `Resolved` to `Resolving` stays in the map, so
it remains a cause for everyone behind it although no notification is sent.

Results:
* `reachable_wakeup`: a parked request that has seen the current version has a
  cause, or a notification is on its way.
* `some_waiter_runs`: without leases and pending notifications the first waiter is
  not asleep.
-/

namespace DufsRam.PathCoordinator

variable {FS : Type} {r : Resolver FS} {fs : FS}

/-- A drop has removed its entry from a map and has not yet modified `changes`. -/
def NotificationPending (s : System FS) : Prop :=
  s.dropping ≠ none ∨ ∃ w t, s.requests.get w = some t ∧ t.phase = .unregistered

/-- What a request parks behind, or the notification that replaces it. -/
def Cause (s : System FS) (w : ℕ) : Prop :=
  (∃ id waiter, id < w ∧ s.inner.waiters.get id = some waiter) ∨
    (∃ lease held, s.inner.leases.get lease = some held) ∨ NotificationPending s

/-- The part of the invariant that concerns one request. -/
structure RequestAwake (s : System FS) (w : ℕ) (t : Request) : Prop where
  issued : w < s.inner.nextWaiterId
  seen : t.seen ≤ s.inner.changes
  parked : t.phase = .parked → t.seen = s.inner.changes → Cause s w

/-- Every request that sleeps on the current version has a cause to. -/
def Wakeup (s : System FS) : Prop := ∀ w t, s.requests.get w = some t → RequestAwake s w t

/-! ## Causes persist until the next notification -/

variable {s s' : System FS} {w : ℕ} {t : Request} {e : Event FS}

/-- Updating a request that is not in the middle of a drop keeps notifications pending. -/
theorem NotificationPending.setRequest {t' : Request} (ht : s.requests.get w = some t)
    (hp : t.phase ≠ .unregistered) (hd : s.dropping ≠ none → s'.dropping ≠ none)
    (hr : s'.requests = s.requests.put w t') (h : NotificationPending s) :
    NotificationPending s' := by
  rcases h with h | ⟨w', t'', hg, hph⟩
  · exact .inl (hd h)
  have hne : w' ≠ w := by
    rintro rfl
    obtain ⟨⟩ := (ht.symm.trans hg)
    exact hp hph
  exact .inr ⟨w', t'', by rw [hr]; exact Table.get_put_of_ne hg hne, hph⟩

/-- A step that removes neither a waiter nor a lease keeps every cause. -/
theorem Cause.mono (hw : ∀ id wt, s.inner.waiters.get id = some wt →
      ∃ w', s'.inner.waiters.get id = some w')
    (hl : ∀ id held, s.inner.leases.get id = some held → s'.inner.leases.get id = some held)
    (hn : NotificationPending s → NotificationPending s') (h : Cause s w) : Cause s' w := by
  rcases h with ⟨id, wt, hlt, hg⟩ | ⟨l, held, hg⟩ | h
  · obtain ⟨w', hg'⟩ := hw id wt hg
    exact .inl ⟨id, w', hlt, hg'⟩
  · exact .inr (.inl ⟨l, held, hl l held hg⟩)
  · exact .inr (.inr (hn h))

/-- The request that a step works on is not in the middle of a drop. -/
theorem phase_ne_unregistered
    (hp : t.phase = .parked ∨ ∃ epoch ps todo, t.phase = .resolving epoch ps todo) :
    t.phase ≠ .unregistered := by
  rcases hp with hp | ⟨_, _, _, hp⟩ <;> rw [hp] <;> nofun

theorem step_changes_le (hs : StepCase r s e s') : s.inner.changes ≤ s'.inner.changes := by
  cases hs with
  | grant | notifyCancelled | notifyDropped => exact Nat.le_succ _
  | blocked notify => cases notify <;> simp [System.setRequest]
  | mark inn _ _ _ hi => rcases hi with rfl | ⟨_, rfl⟩ <;> exact le_rfl
  | _ => exact le_rfl

/-- A step that does not modify `changes` keeps every cause. -/
theorem step_cause (h : Wakeup s) (hs : StepCase r s e s')
    (heq : s'.inner.changes = s.inner.changes) (hc : Cause s w) : Cause s' w := by
  -- A step of one request that leaves both maps and the drop in progress alone.
  have update : ∀ {w' t' t''} {s' : System FS}, s.requests.get w' = some t' →
      t'.phase ≠ .unregistered → s'.requests = s.requests.put w' t'' →
      s'.dropping = s.dropping → s'.inner.leases = s.inner.leases →
      (∀ id wt, s.inner.waiters.get id = some wt →
        ∃ waiter', s'.inner.waiters.get id = some waiter') → Cause s' w := by
    intro w' t' t'' s' ht hp hr hd hl hw
    exact hc.mono hw (fun id held hg => by rw [hl]; exact hg)
      (NotificationPending.setRequest ht hp (by rw [hd]; exact id) hr)
  have same : ∀ id wt, s.inner.waiters.get id = some wt →
      ∃ waiter', s.inner.waiters.get id = some waiter' := fun _ wt hg => ⟨wt, hg⟩
  cases hs with
  | allocate ps =>
    refine hc.mono same (fun _ _ hl => hl) fun hn => ?_
    rcases hn with hd | ⟨w', t', hg, hp⟩
    · exact .inl hd
    · exact .inr ⟨w', t', Table.get_put_of_ne hg (h w' t' hg).issued.ne, hp⟩
  | insert ht hp | blocked _ ht hp =>
    exact update ht (by rw [hp]; nofun) rfl rfl rfl fun _ _ hg => Table.exists_get_put hg
  | observe ph ht hp =>
    refine update ht ?_ rfl rfl rfl same
    rcases hp with ⟨hp, -⟩ | ⟨hp, -⟩ | ⟨hp, -⟩ <;> rw [hp] <;> nofun
  | loadEpoch ht hp | keep ht hp | parkBehind ht hp | resolve _ ht hp | finishResolving ht hp
  | stale ht hp => exact update ht (by rw [hp]; nofun) rfl rfl rfl same
  | mark inn ht hp _ hi =>
    rcases hi with rfl | ⟨-, rfl⟩
    · exact update ht (by rw [hp]; nofun) rfl rfl rfl same
    · exact update ht (by rw [hp]; nofun) rfl rfl rfl fun _ _ hg => Table.exists_get_put hg
  | grant | notifyCancelled | notifyDropped => exact absurd heq (Nat.succ_ne_self _)
  | cancelAbsent ht _ hp => exact update ht (phase_ne_unregistered hp) rfl rfl rfl same
  | @cancel w' t' ht hp =>
    -- The removed waiter is replaced as a cause by its own pending notification.
    exact .inr (.inr (.inr ⟨w', _, by rw [System.setRequest, Table.get_put, if_pos rfl], rfl⟩))
  | dropLease | bumpEpoch => exact .inr (.inr (.inl nofun))
  | mutate _ _ _ => exact hc

/-! ## The invariant -/

theorem RequestAwake.step (h : Wakeup s) (hs : StepCase r s e s') (ht : RequestAwake s w t) :
    RequestAwake s' w t := by
  have hle := step_changes_le hs
  refine ⟨?_, ht.seen.trans hle, fun hp heq => ?_⟩
  · have his := ht.issued
    cases hs with
    | allocate ps => exact Nat.lt_succ_of_lt his
    | mark inn _ _ _ hi => rcases hi with rfl | ⟨_, rfl⟩ <;> exact his
    | _ => exact his
  · -- The version did not move since the request saw it.
    have hc : s'.inner.changes = s.inner.changes :=
      le_antisymm (heq ▸ ht.seen) hle
    exact step_cause h hs hc (ht.parked hp (heq.trans hc))

/-- A blocked request has a cause: the blocking test found it. -/
theorem isBlocked_cause {req : List LeaseKey} (hb : s.inner.isBlocked req w = true) :
    (∃ id wt, id < w ∧ s.inner.waiters.get id = some wt) ∨
      ∃ l held, s.inner.leases.get l = some held := by
  unfold CoordinatorInner.isBlocked at hb
  rw [Bool.or_eq_true] at hb
  rcases hb with hb | hb
  · obtain ⟨l, held, hl, -⟩ := Table.any_iff.mp hb
    exact .inr ⟨l, held, hl⟩
  · obtain ⟨id, wt, hg, hp⟩ := Table.any_iff.mp hb
    rw [Bool.and_eq_true, decide_eq_true_iff] at hp
    exact .inl ⟨id, wt, hp.1, hg⟩

/-- The request a step has just updated. -/
theorem step_updated (h : Wakeup s) (hs : StepCase r s e s') (ht : s'.requests.get w = some t) :
    s.requests.get w = some t ∨ RequestAwake s' w t := by
  have put : ∀ {w' : ℕ} {t' : Request}, (s.requests.put w' t').get w = some t →
      (w = w' → RequestAwake s' w' t') → s.requests.get w = some t ∨ RequestAwake s' w t := by
    intro w' t' hg hn
    obtain ⟨rfl, rfl⟩ | ⟨-, hold⟩ := Table.get_put_cases hg
    · exact .inr (hn rfl)
    · exact .inl hold
  have hle := step_changes_le hs
  -- A request that saw nothing new and is not parked.
  have quiet : ∀ {w' : ℕ} {t₀ t' : Request}, (s.requests.put w' t').get w = some t →
      s.requests.get w' = some t₀ → t'.seen = t₀.seen → t'.phase ≠ .parked →
      s'.inner.nextWaiterId = s.inner.nextWaiterId →
      s.requests.get w = some t ∨ RequestAwake s' w t := by
    intro w' t₀ t' hput hg hsn hp hi
    refine put hput fun _ => ⟨?_, ?_, fun hpk => absurd hpk hp⟩
    · rw [hi]
      exact (h w' t₀ hg).issued
    · rw [hsn]
      exact (h w' t₀ hg).seen.trans hle
  cases hs with
  | allocate ps =>
    exact put ht fun _ => ⟨Nat.lt_succ_self _, Nat.zero_le _, fun hp => by cases hp⟩
  | observe ph ht' hp =>
    refine put ht fun _ => ⟨(h _ _ ht').issued, le_rfl, fun hph => ?_⟩
    rcases hp with ⟨-, rfl⟩ | ⟨-, rfl⟩ | ⟨-, -, rfl⟩ <;> cases hph
  | parkBehind ht' _ hlt hw =>
    exact put ht fun _ =>
      ⟨(h _ _ ht').issued, (h _ _ ht').seen, fun _ _ => .inl ⟨_, _, hlt, hw⟩⟩
  | mark inn ht' _ _ hi =>
    rcases hi with rfl | ⟨-, rfl⟩ <;> exact quiet ht ht' rfl (by simp) rfl
  | @blocked w' t' _ _ req _ notify ht' _ _ _ hb =>
    refine put ht fun _ => ⟨(h _ _ ht').issued, (h _ _ ht').seen.trans hle, fun _ _ => ?_⟩
    rcases isBlocked_cause hb with ⟨id, wt, hlt, hg⟩ | ⟨l, held, hl⟩
    · exact .inl ⟨id, wt, hlt, Table.get_put_of_ne hg hlt.ne⟩
    · exact .inr (.inl ⟨l, held, hl⟩)
  | dropLease | bumpEpoch | notifyDropped | mutate => exact .inl ht
  | insert ht' | loadEpoch ht' | keep ht' | resolve _ ht' | finishResolving ht' | stale ht'
  | grant _ ht' | cancelAbsent ht' | cancel ht' | notifyCancelled ht' =>
    exact quiet ht ht' rfl (by simp) rfl

/-- In every reachable state a request that sleeps on the current version has a cause. -/
theorem reachable_wakeup {ok : System FS → Event FS → Prop} (h : (machine r fs).Reachable ok s) :
    Wakeup s := by
  refine h.invariant nofun fun s e s' _ ih _ hst w t ht => ?_
  have hs := step_cases hst
  rcases step_updated ih hs ht with hold | hn
  · exact (ih w t hold).step ih hs
  · exact hn

/-- There is no live lease and no pending notification, and waiters are registered,
    but all of them sleep on the current version of `changes`. -/
def AllAsleep (s : System FS) : Prop :=
  (∀ lease, s.inner.leases.get lease = none) ∧
    (∃ w waiter, s.inner.waiters.get w = some waiter) ∧ ¬ NotificationPending s ∧
    ∀ w waiter, s.inner.waiters.get w = some waiter →
      ∃ t, s.requests.get w = some t ∧ t.phase = .parked ∧ t.seen = s.inner.changes

theorem some_waiter_runs {s : System FS} (hs : (machine r fs).Reachable (fun _ _ => True) s) :
    ¬ AllAsleep s := by
  classical
  rintro ⟨hls, hw, hq, ha⟩
  -- The waiter with the smallest id has nobody to wait for.
  obtain ⟨waiter, hg⟩ := Nat.find_spec hw
  obtain ⟨t, ht, hpr, hsn⟩ := ha _ waiter hg
  rcases (reachable_wakeup hs _ t ht).parked hpr hsn with
    ⟨id, waiter', hlt, hg'⟩ | ⟨lease, held, hl⟩ | hp
  · exact Nat.find_min hw hlt ⟨waiter', hg'⟩
  · rw [hls lease] at hl
    cases hl
  · exact hq hp

/-- The steps of a request for `a` from its registration to `try_acquire`. -/
def acquireRun (w : ℕ) : List (Event Unit) :=
  [.allocate [["a"]], .insert w, .subscribe w, .borrowAndUpdate w, .loadEpoch w, .checkEpoch w,
    .resolve w true, .finishResolving w, .tryAcquire w]

/-- The second of two requests for `a` parks behind the lease of the first, which is
    then dropped. -/
def parkedRun : List (Event Unit) :=
  acquireRun 1 ++ acquireRun 2 ++ [.dropLease 1, .bumpEpoch, .notifyDropped]

/-- No lease is left, and request 2 is still parked. -/
def onlySecondIsParked (s : System Unit) : Bool :=
  decide (s.inner.leases.rows = []) && decide (s.dropping = none) &&
    (s.requests.get 2).any fun t => decide (t.phase = .parked)

theorem some_waiter_runs_after_drop :
    ∃ s : System Unit, (machine flatResolver ()).Reachable (fun _ _ => True) s ∧
      onlySecondIsParked s = true ∧ ¬ AllAsleep s := by
  obtain ⟨s, hs, hp⟩ := Machine.exists_reachable_of_run (machine flatResolver ()) parkedRun
    onlySecondIsParked (fun _ _ _ => trivial) (by decide)
  exact ⟨s, hs, hp, some_waiter_runs hs⟩

end DufsRam.PathCoordinator
