import DufsRam.StateStore.Operation

/-!
# Operations run at most once

An operation that has started its commit keeps its row until the row is completed,
by its own lease, by abandonment or by recovery, and until that completion has
expired. Only then can the key be reserved again. Abandonments may arrive at any
time, also long after their reservation is gone: every lease-carrying statement names
its lease, and a lease belongs to one reservation only.

Results:
* `started_after_expiry`: a commit that has started is never run a second time.
* `stale_lease_no_effect`: a command of an older reservation changes no later row.
* `conflict_of_fingerprint_ne`: another request never shares a live row.
* `completed_recorded`: a completed row holds what its completion recorded.
-/

namespace DufsRam.StateStore

variable {limits : Limits} {start : ℤ}

/-- `a` was issued before `b`. -/
def IssuedBefore (issued : List Uuid) (a b : Uuid) : Prop :=
  ∃ older between newer, issued = older ++ a :: between ++ b :: newer

/-- Event `e` records `outcome` for the reservation `lease` of `key`: the completion by
    that lease, or the uncertain outcome of its abandonment or of a recovery. -/
def Recording (e : Event) (key : OperationKey) (lease : Uuid) (outcome : StoredOutcome) : Prop :=
  e.command = .complete key lease outcome ∨
    (outcome = .uncertain ∧ (e.command = .abandon key lease ∨ e.command = .recover))

/-! ## A started commit -/

/-- The row of `key` belongs to `lease` and its commit has started. -/
def CommitHeld (s : Store) (key : OperationKey) (lease : Uuid) : Prop :=
  ∃ row, s.operations.get key = some row ∧ row.leaseToken = lease ∧ row.state ≠ .reserved

/-- The row of `key` belongs to `lease` and is completed until `expiresAt`. -/
def CompletedUntil (s : Store) (key : OperationKey) (lease : Uuid) (expiresAt : ℤ) : Prop :=
  ∃ row, s.operations.get key = some row ∧ row.leaseToken = lease ∧ row.state = .completed ∧
    row.expiresAtMs = some expiresAt

variable {row : OperationRow} {now : ℤ} {s s' t : Store} {key : OperationKey} {lease : Uuid}
  {ops : Operations} {fingerprint : Digest} {outcome : StoredOutcome}

theorem OperationRow.isExpired_iff : row.isExpired now = true ↔
      row.state = .completed ∧ ∃ exp, row.expiresAtMs = some exp ∧ exp ≤ now := by
  simp [OperationRow.isExpired, Option.any_eq_true]

/-- One step keeps a started commit, or its completion has expired. -/
theorem CommitHeld.step {e : Event} (h : CommitHeld s key lease) (hsp : s.step limits e = some s') :
    CommitHeld s' key lease ∨ ∃ exp, CompletedUntil s key lease exp ∧
      exp ≤ e.now := by
  obtain ⟨row, hg, hl, hst⟩ := h
  have expired : row.isExpired e.now = true →
      ∃ exp, CompletedUntil s key lease exp ∧ exp ≤ e.now := by
    intro hx
    obtain ⟨hc, exp, he, hle⟩ := OperationRow.isExpired_iff.mp hx
    exact ⟨exp, ⟨row, hg, hl, hc, he⟩, hle⟩
  have hr := step_row hsp key
  rw [hg] at hr
  generalize ha : s'.operations.get key = after at hr
  cases hr with
  | same => exact .inl ⟨row, ha, hl, hst⟩
  | purged _ hx => exact .inr (expired hx)
  | started _ hb => exact .inr (expired (hb row rfl))
  | marked _ hs | removed _ hs => exact absurd hs hst
  | completed | uncertain => exact .inl ⟨_, ha, hl, nofun⟩
  | clamped exp => exact .inl ⟨_, ha, hl, hst⟩

/-- Along a run a started commit is held until a completion of it has expired. -/
theorem CommitHeld.run (h : CommitHeld s key lease)
    (hr : (operationMachine limits start).Steps UniqueLeases s t) :
    CommitHeld t key lease ∨
      ∃ u exp, (operationMachine limits start).Steps UniqueLeases s u ∧
        (operationMachine limits start).Steps UniqueLeases u t ∧
        CompletedUntil u key lease exp ∧ exp ≤ t.clock := by
  induction hr with
  | refl => exact .inl h
  | @tail t t' e hst hok hs ih =>
    have hs' : t.step limits e = some t' := hs
    have hcl := step_clock hs'
    rcases ih with hh | ⟨u, exp, hsu, hut, hc, hle⟩
    · rcases hh.step hs' with hh' | ⟨exp, hc, hle⟩
      · exact .inl hh'
      · exact .inr ⟨t, exp, hst, (Machine.Steps.refl t).tail hok hs, hc, by omega⟩
    · exact .inr ⟨u, exp, hsu, hut.tail hok hs, hc, by omega⟩

theorem markOperationCommitStarted_true
    (h : (markOperationCommitStarted now ops key lease).1 = true) :
    ∃ row, ops.get key = some row ∧ row.leaseToken = lease ∧ row.state = .reserved := by
  have ho : ops.countWhere (leaseIn key lease [.reserved]) = 1 := of_decide_eq_true h
  have hk : ∀ key' row, leaseIn key lease [.reserved] key' row = true → key' = key :=
    fun key' row hp => (leaseIn_iff.mp hp).1
  obtain ⟨row, hg, hp⟩ := (Table.countWhere_eq_one_iff hk).mp ho
  obtain ⟨-, hl, hs⟩ := leaseIn_iff.mp hp
  exact ⟨row, hg, hl, List.mem_singleton.mp hs⟩

/-- A successful `mark_operation_commit_started` leaves a started commit. -/
theorem commitHeld_of_marked (hm : (markOperationCommitStarted now s.operations key lease).1 = true)
    (hs : s.step limits ⟨.markCommitStarted key lease, now⟩ = some s') :
    CommitHeld s' key lease := by
  obtain ⟨row, hg, hl, hst⟩ := markOperationCommitStarted_true hm
  unfold Store.step at hs
  split_ifs at hs with hc
  rw [← Option.some.inj hs]
  have hp : leaseIn key lease [.reserved] key row = true :=
    leaseIn_iff.mpr ⟨rfl, hl, List.mem_singleton.mpr hst⟩
  refine ⟨{ row with state := .commitStarted, updatedAtMs := now }, ?_, hl, nofun⟩
  simp [Store.commit, markOperationCommitStarted, hg, hp]

theorem started_after_expiry {s₁ : Store} {l' l : Uuid} {now' : ℤ}
    (hm : (markOperationCommitStarted now s.operations key lease).1 = true)
    (hs : s.step limits ⟨.markCommitStarted key lease, now⟩ = some s₁)
    (hr : (operationMachine limits start).Steps UniqueLeases s₁ t) (hcl : t.clock ≤ now')
    (hb : beginOperation limits now' l' t.operations key fingerprint =
      .ok (.started l, ops)) :
    ∃ u exp, (operationMachine limits start).Steps UniqueLeases s₁ u ∧
      (operationMachine limits start).Steps UniqueLeases u t ∧
      CompletedUntil u key lease exp ∧ exp ≤ now' := by
  rcases (commitHeld_of_marked hm hs).run hr with hh | ⟨u, exp, hsu, hut, hc, hle⟩
  · -- The row is still there, so this `begin_operation` has purged it.
    obtain ⟨row, hg, hl, -⟩ := hh
    rcases beginOperation_cases hb with ⟨-, hn⟩ | ⟨-, hf, -⟩
    · exact absurd rfl (hn l)
    · obtain ⟨hc, exp, he, hle⟩ :=
        OperationRow.isExpired_iff.mp (purgeExpired_eq_none hf row hg)
      exact ⟨t, exp, hr, .refl t, ⟨row, hg, hl, hc, he⟩, hle⟩
  · exact ⟨u, exp, hsu, hut, hc, le_trans hle hcl⟩

/-! ## Older leases -/

theorem reachable_issued_nodup (h : (operationMachine limits start).Reachable UniqueLeases s) :
    s.issued.Nodup := by
  induction h with
  | init => exact List.nodup_nil
  | @step s s' e _ hok hs ih =>
    rcases step_issued (show s.step limits e = some s' from hs) with
      hsm | ⟨key, fingerprint, lease, he, hn⟩
    · rw [hsm]
      exact ih
    rw [hn, List.nodup_append]
    refine ⟨ih, List.nodup_singleton lease, fun a ha b hb => ?_⟩
    obtain rfl := List.mem_singleton.mp hb
    rintro rfl
    exact hok key fingerprint a he ha

theorem IssuedBefore.ne {issued : List Uuid} (hn : issued.Nodup) {a b : Uuid}
    (h : IssuedBefore issued a b) : a ≠ b := by
  obtain ⟨older, between, newer, rfl⟩ := h
  rintro rfl
  rw [List.append_assoc, List.nodup_append] at hn
  have := (List.nodup_cons.mp hn.2.1).1
  simp at this

theorem stale_lease_no_effect {e : Event}
    (h : (operationMachine limits start).Reachable UniqueLeases s)
    (hs : s.step limits e = some s') (he : e.command.lease? = some lease)
    (hg : s.operations.get key = some row) (hold : IssuedBefore s.issued lease row.leaseToken) :
    s'.operations.get key = some row := by
  have hne : lease ≠ row.leaseToken := hold.ne (reachable_issued_nodup h)
  have hr := step_row hs key
  rw [hg] at hr
  generalize ha : s'.operations.get key = after at hr
  -- Every change of a row is made by its own lease, or by a command without one.
  cases hr with
  | same => rfl
  | purged hn | started hn | clamped _ hn => rw [hn] at he; cases he
  | marked hc | completed _ hc => rw [hc] at he; exact absurd (Option.some.inj he).symm hne
  | removed hc | uncertain _ hc =>
    rcases hc with hc | hc <;> rw [hc] at he
    · exact absurd (Option.some.inj he).symm hne
    · cases he

/-! ## Answers of `begin_operation` -/

theorem conflict_of_fingerprint_ne {ops' : Operations} {a : StoreBegin}
    (hg : ops.get key = some row) (hl : row.isExpired now = false)
    (hne : row.fingerprint ≠ fingerprint)
    (h : beginOperation limits now lease ops key fingerprint = .ok (a, ops')) :
    a = .conflict := by
  unfold beginOperation at h
  simp only [purgeExpired_of_live hg hl, if_pos hne] at h
  exact (Prod.mk.inj (Except.ok.inj h)).1.symm

/-- The columns that hold an outcome. -/
def OperationRow.Holds (row : OperationRow) (outcome : StoredOutcome) : Prop :=
  row.terminalState = some outcome.state ∧ row.httpStatus = some outcome.status ∧
    row.errorCode = outcome.code

theorem OperationRow.complete_holds (row : OperationRow) (outcome : StoredOutcome)
    (now exp : ℤ) : (row.complete outcome now exp).Holds outcome :=
  ⟨rfl, rfl, rfl⟩

theorem OperationRow.Holds.intoOutcome {out' : StoredOutcome} (h : row.Holds outcome)
    (hi : row.intoOutcome = .ok out') : out' = outcome := by
  obtain ⟨hs, hst, hc⟩ := h
  simp only [OperationRow.intoOutcome, hs, hst, hc] at hi
  split_ifs at hi
  cases hv : StoredOutcome.validate ⟨outcome.status, outcome.state, outcome.code⟩ with
  | error msg => rw [hv] at hi; cases hi
  | ok => rw [hv] at hi; exact (Except.ok.inj hi).symm

/-- A replayed outcome is the one the completed row of the key holds. -/
theorem beginOperation_replay {ops' : Operations}
    (h : beginOperation limits now lease ops key fingerprint = .ok (.replay outcome, ops')) :
    ∃ row, ops.get key = some row ∧ row.state = .completed ∧ row.intoOutcome = .ok outcome := by
  unfold beginOperation at h
  dsimp only at h
  split at h
  · rename_i existing hg
    have hold : ops.get key = some existing := by
      rw [purgeExpired, Table.get_deleteWhere] at hg
      obtain ⟨row, hr, hif⟩ := Option.bind_eq_some_iff.mp hg
      split_ifs at hif
      obtain ⟨⟩ := hif
      exact hr
    split_ifs at h with hfp
    · cases h
    cases hs : existing.state with
    | reserved | commitStarted => rw [hs] at h; cases h
    | completed =>
      rw [hs] at h
      cases hot : existing.intoOutcome with
      | error msg => rw [hot] at h; cases h
      | ok out' =>
        rw [hot] at h
        obtain ⟨ho, -⟩ := Prod.mk.inj (Except.ok.inj h)
        obtain rfl := StoreBegin.replay.inj ho
        exact ⟨existing, hold, hs, hot⟩
  · split_ifs at h <;> cases h

/-- The step that completed a row, and the outcome it recorded. -/
def CompletedBy (limits : Limits) (start : ℤ) (t : Store) (key : OperationKey)
    (lease : Uuid) (outcome : StoredOutcome) : Prop :=
  ∃ u e v row, (operationMachine limits start).Reachable UniqueLeases u ∧ UniqueLeases u e ∧
    (operationMachine limits start).step u e = some v ∧
    (operationMachine limits start).Steps UniqueLeases v t ∧
    u.operations.get key = some row ∧ row.leaseToken = lease ∧ row.state ≠ .completed ∧
    Recording e key lease outcome

theorem CompletedBy.tail {t' : Store} {e : Event} (h : CompletedBy limits start t key lease outcome)
    (hok : UniqueLeases t e) (hs : (operationMachine limits start).step t e = some t') :
    CompletedBy limits start t' key lease outcome := by
  obtain ⟨u, e', v, row, hu, hok', huv, hvt, hr⟩ := h
  exact ⟨u, e', v, row, hu, hok', huv, hvt.tail hok hs, hr⟩

/-- Every completed row holds the outcome of the step that completed it. -/
theorem completed_recorded (h : (operationMachine limits start).Reachable UniqueLeases t) :
    ∀ key row, t.operations.get key = some row → row.state = .completed →
      ∃ outcome, row.Holds outcome ∧ CompletedBy limits start t key row.leaseToken outcome := by
  induction h with
  | init => nofun
  | @step s s' e hs hok hst ih =>
    intro key row hg hsta
    have hr := step_row (show s.step limits e = some s' from hst) key
    rw [hg] at hr
    generalize hb : s.operations.get key = before at hr
    cases hr with
    | same =>
      obtain ⟨outcome, hh, hby⟩ := ih key row hb hsta
      exact ⟨outcome, hh, hby.tail hok hst⟩
    | started | marked => cases hsta
    | @completed row₀ outcome exp hc hs₀ =>
      exact ⟨outcome, row₀.complete_holds outcome e.now exp, s, e, s', row₀, hs, hok, hst,
        .refl s', hb, rfl, hs₀, .inl hc⟩
    | @uncertain row₀ exp hc hs₀ =>
      exact ⟨.uncertain, row₀.complete_holds .uncertain e.now exp, s, e, s', row₀, hs, hok,
        hst, .refl s', hb, rfl, by rw [hs₀]; nofun, .inr ⟨rfl, hc⟩⟩
    | @clamped row₀ exp hc hs₀ =>
      obtain ⟨outcome, hh, hby⟩ := ih key row₀ hb hs₀
      exact ⟨outcome, hh, hby.tail hok hst⟩

/-! ## At most once -/

/-- What the operation table guarantees over every run of the store. -/
structure AtMostOnce (limits : Limits) (start : ℤ) : Prop where
  /-- After `mark_operation_commit_started` has succeeded for a key, a `begin_operation`
      with that key answers `Started` only if the row was completed (or recovered) in
      between and that completion has expired. -/
  commitOnce : ∀ s s₁ t key lease now fingerprint lease' now' l ops,
    (operationMachine limits start).Reachable UniqueLeases s →
    (markOperationCommitStarted now s.operations key lease).1 = true →
    (operationMachine limits start).step s ⟨.markCommitStarted key lease, now⟩ = some s₁ →
    (operationMachine limits start).Steps UniqueLeases s₁ t → t.clock ≤ now' →
    beginOperation limits now' lease' t.operations key fingerprint = .ok (.started l, ops) →
    ∃ u expiresAt, (operationMachine limits start).Steps UniqueLeases s₁ u ∧
      (operationMachine limits start).Steps UniqueLeases u t ∧
      CompletedUntil u key lease expiresAt ∧ expiresAt ≤ now'
  /-- A command carrying a lease changes no row whose own lease was issued later. -/
  staleLease : ∀ s s' e lease key row,
    (operationMachine limits start).Reachable UniqueLeases s →
    (operationMachine limits start).step s e = some s' → e.command.lease? = some lease →
    s.operations.get key = some row → IssuedBefore s.issued lease row.leaseToken →
    s'.operations.get key = some row
  /-- A live row answers `Conflict` to every other fingerprint. -/
  fingerprint : ∀ s now lease key fingerprint row answer ops,
    (operationMachine limits start).Reachable UniqueLeases s →
    s.operations.get key = some row → row.isExpired now = false →
    row.fingerprint ≠ fingerprint →
    beginOperation limits now lease s.operations key fingerprint = .ok (answer, ops) →
    answer = .conflict
  /-- A replayed outcome is the one recorded when the row of the key was completed: by
      its own lease, or as uncertain by its abandonment or by recovery. -/
  replay : ∀ t now lease key fingerprint outcome ops,
    (operationMachine limits start).Reachable UniqueLeases t →
    beginOperation limits now lease t.operations key fingerprint = .ok (.replay outcome, ops) →
    ∃ row, t.operations.get key = some row ∧
      CompletedBy limits start t key row.leaseToken outcome

theorem operations_at_most_once (limits : Limits) (start : ℤ) : AtMostOnce limits start where
  commitOnce := fun _ _ _ _ _ _ _ _ _ _ _ _ hm hst hr hc hb =>
    started_after_expiry hm hst hr hc hb
  staleLease := fun _ _ _ _ _ _ hs hst he hg hold =>
    stale_lease_no_effect hs hst he hg hold
  fingerprint := fun _ _ _ _ _ _ _ _ _ hg hl hne hb =>
    conflict_of_fingerprint_ne hg hl hne hb
  replay := by
    intro t now lease key fingerprint outcome ops ht hb
    obtain ⟨row, hg, hsta, hi⟩ := beginOperation_replay hb
    obtain ⟨outcome', hh, hby⟩ := completed_recorded ht key row hg hsta
    obtain rfl := hh.intoOutcome hi
    exact ⟨row, hg, hby⟩

end DufsRam.StateStore
