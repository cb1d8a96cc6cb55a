import DufsRam.StateStore.Actor

/-!
# No reservation is lost

A row that is reserved or whose commit has started belongs to a guard, or somebody is about to
abandon it: a message in the control channel, an entry of the deferred list, the actor itself,
or a cleanup that is still armed. A control message is not overlooked either.

Results:
* `ActorInvariant.step`: every step hands a reservation on, and a pending message wakes the actor
  once its sender has tried to.
* `reservations_abandoned`: both, for every run.
-/

namespace DufsRam.StateStore

variable {limits : Limits} {capacity : ℕ}

/-! ## Live leases -/

/-- The row of the key is not completed and carries the lease. -/
def LiveLease (ops : Operations) (key : OperationKey) (lease : Uuid) : Prop :=
  ∃ row, ops.get key = some row ∧ row.state ≠ .completed ∧ row.leaseToken = lease

variable {key key' : OperationKey} {ops ops' : Operations} {lease lease' : Uuid} {now : ℤ}
  {e : ActorEvent} {request : ℕ} {fails : Bool}

/-- A live lease after a command was live before, unless the command began the operation. -/
theorem RowStep.live {e : Event} (h : RowStep e key (ops.get key) (ops'.get key))
    (hlv : LiveLease ops' key lease) :
    LiveLease ops key lease ∨ ∃ fp, e.command = .begin key fp lease := by
  obtain ⟨row, hg, hst, hl⟩ := hlv
  generalize hbf : ops.get key = before at h
  rw [hg] at h
  cases h with
  | same => exact .inl ⟨row, hbf, hst, hl⟩
  | @started _ fp lease' he hb =>
    subst hl
    exact .inr ⟨fp, he⟩
  | marked he hs => exact .inl ⟨_, hbf, by rw [hs]; nofun, hl⟩
  | completed | uncertain => exact absurd rfl hst
  | clamped _ _ hs => exact absurd hs hst

theorem live_of_purgeExpired (h : LiveLease (purgeExpired ops now) key lease) :
    LiveLease ops key lease := by
  obtain ⟨row, hg, hs, hl⟩ := h
  rw [purgeExpired_get, Option.filter_eq_some_iff] at hg
  exact ⟨row, hg.1, hs, hl⟩

theorem beginOperation_live {fp : Digest} {a : StoreBegin}
    (h : beginOperation limits now lease ops key fp = .ok (a, ops'))
    (hl : LiveLease ops' key' lease') :
    LiveLease ops key' lease' ∨ key' = key ∧ a = .started lease' := by
  obtain ⟨rfl, -⟩ | ⟨ha, -, rfl⟩ := beginOperation_cases h
  · exact .inl (live_of_purgeExpired hl)
  obtain ⟨row, hg, hs, rfl⟩ := hl
  obtain ⟨rfl, rfl⟩ | ⟨-, hold⟩ := Table.get_put_cases hg
  · exact .inr ⟨rfl, ha⟩
  · exact .inl (live_of_purgeExpired ⟨row, hold, hs, rfl⟩)

theorem operationStatus_live {a : StoreStatus}
    (h : operationStatus now ops key = .ok (a, ops')) (hl : LiveLease ops' key' lease) :
    LiveLease ops key' lease := by
  have hr : RowStep ⟨.status key, now⟩ key' (ops.get key') (ops'.get key') :=
    operationStatus_row rfl h
  obtain hold | ⟨_, he⟩ := hr.live hl
  · exact hold
  · cases he

theorem markOperationCommitStarted_live
    (hl : LiveLease (markOperationCommitStarted now ops key lease).2 key' lease') :
    LiveLease ops key' lease' := by
  have hr : RowStep ⟨.markCommitStarted key lease, now⟩ key' (ops.get key')
      ((markOperationCommitStarted now ops key lease).2.get key') :=
    markOperationCommitStarted_row rfl ops
  obtain hold | ⟨_, he⟩ := hr.live hl
  · exact hold
  · cases he

/-- An update that completes the rows of a lease in some states leaves none live, if the live one is
    in such a state. -/
theorem not_live_updateWhere {states : List OperationState} {out : StoredOutcome} {exp : ℤ}
    (hr : ∀ row, ops.get key = some row → row.leaseToken = lease → row.state ≠ .completed →
      row.state ∈ states) :
    ¬ LiveLease (ops.updateWhere (leaseIn key lease states) fun row => row.complete out now exp)
      key lease := by
  rintro ⟨row', hg, hst, hl⟩
  rw [Table.get_updateWhere] at hg
  obtain ⟨row, hrw, hr'⟩ := Option.map_eq_some_iff.mp hg
  split_ifs at hr' with hsr
  · subst hr'
    exact hst rfl
  · subst hr'
    exact hsr (leaseIn_iff.mpr ⟨rfl, hl, hr row hrw hl hst⟩)

/-- A completion that succeeded leaves no live lease of its own. -/
theorem completeOperation_live {out : StoredOutcome} {chg : Bool}
    (h : completeOperation limits now ops key lease out = .ok (chg, ops'))
    (hl : LiveLease ops' key' lease') :
    LiveLease ops key' lease' ∧ ¬ (key' = key ∧ lease' = lease) := by
  have hr : RowStep ⟨.complete key lease out, now⟩ key' (ops.get key') (ops'.get key') :=
    completeOperation_row rfl h
  refine ⟨?_, ?_⟩
  · obtain hold | ⟨_, he⟩ := hr.live hl
    · exact hold
    · cases he
  rintro ⟨rfl, rfl⟩
  obtain ⟨exp, -, hx⟩ := exists_of_map_eq_ok h
  obtain ⟨-, rfl⟩ := Prod.mk.inj hx
  refine not_live_updateWhere (fun row _ _ hst => ?_) hl
  cases hs : row.state <;> simp_all

theorem not_reserved_deleteWhere {row : OperationRow}
    (hg : (ops.deleteWhere (leaseIn key lease [.reserved])).get key = some row)
    (hl : row.leaseToken = lease) : row.state ≠ .reserved := by
  rw [Table.get_deleteWhere] at hg
  obtain ⟨row', -, hk⟩ := Option.bind_eq_some_iff.mp hg
  split_ifs at hk with hr
  cases hk
  intro hs
  exact hr (leaseIn_iff.mpr ⟨rfl, hl, by simp [hs]⟩)

/-- An abandonment that succeeded leaves no live lease of its own: the row is gone if it was
    reserved, and completed if its commit had started. -/
theorem abandonOperation_live (h : abandonOperation limits now ops key lease = .ok ops')
    (hl : LiveLease ops' key' lease') :
    LiveLease ops key' lease' ∧ ¬ (key' = key ∧ lease' = lease) := by
  have hrw : RowStep ⟨.abandon key lease, now⟩ key' (ops.get key') (ops'.get key') :=
    abandonOperation_row rfl h
  refine ⟨?_, ?_⟩
  · obtain hold | ⟨_, he⟩ := hrw.live hl
    · exact hold
    · cases he
  rintro ⟨rfl, rfl⟩
  obtain ⟨exp, -, hx⟩ := exists_of_map_eq_ok h
  dsimp only at hx
  split_ifs at hx with hn
  · subst hx
    refine not_live_updateWhere (fun row hg hls hst => ?_) hl
    have hnr := not_reserved_deleteWhere hg hls
    cases hs : row.state <;> simp_all
  -- A row was deleted, and the key has no other.
  subst hx
  obtain ⟨row', hg, -, -⟩ := hl
  obtain ⟨key₁, row, hr₁, hr⟩ := Table.countWhere_pos_iff.mp (Nat.pos_of_ne_zero hn)
  obtain ⟨rfl, -, -⟩ := leaseIn_iff.mp hr
  rw [Table.get_deleteWhere, hr₁, Option.bind_some, if_pos hr] at hg
  cases hg

/-- The recovery leaves no live lease. -/
theorem recoverOperations_live (h : recoverOperations limits now ops = .ok ops') :
    ¬ LiveLease ops' key lease := by
  obtain ⟨exp, -, hrc⟩ := recoverOperations_get h
  rintro ⟨row, hg, hst, -⟩
  rw [hrc] at hg
  obtain ⟨old, -, hr⟩ := Option.bind_eq_some_iff.mp hg
  unfold OperationRow.recover at hr
  split at hr
  · cases hr
  split at hr
  · cases hr
  · cases hr
    exact hst rfl
  · next hs =>
    split_ifs at hr <;> cases hr <;> exact hst hs

/-! ## Duties -/

/-- The lease that the actor has to abandon or to deliver. -/
def ActorPhase.duty : ActorPhase → Option (OperationKey × Uuid)
  | .abandoning key lease _ => some (key, lease)
  | .reply _ key (some (.started lease)) => some (key, lease)
  | _ => none

/-- The lease that a holder has to abandon in the end. -/
def Holder.duty : Holder → Option (OperationKey × Uuid)
  | .offered key lease | .holding key lease false | .dropping key lease => some (key, lease)
  | .waiting | .holding _ _ true | .gone => none

/-- Somebody has to abandon the lease. -/
inductive Duty (s : ActorSystem) (d : OperationKey × Uuid) : Prop
  | pending {message : ℕ} : (message, .abandon d.1 d.2) ∈ s.controls → Duty s d
  | deferred : d ∈ s.deferred → Duty s d
  | actor : s.phase.duty = some d → Duty s d
  | holder {request : ℕ} : (s.holders request).duty = some d → Duty s d

/-- Every live lease is somebody's duty. -/
def Responsible (s : ActorSystem) : Prop :=
  ∀ key lease, LiveLease s.operations key lease → Duty s (key, lease)

namespace Duty

variable {s s' : ActorSystem} {d : OperationKey × Uuid}

/-- What waits goes on waiting or becomes the actor's own duty. -/
theorem congr (h : Duty s d)
    (hc : ∀ message, (message, .abandon d.1 d.2) ∈ s.controls →
      (message, .abandon d.1 d.2) ∈ s'.controls ∨ s'.phase.duty = some d)
    (hd : d ∈ s.deferred → d ∈ s'.deferred ∨ s'.phase.duty = some d)
    (hp : s.phase.duty = some d → s'.phase.duty = some d)
    (hh : s'.holders = s.holders) : Duty s' d := by
  cases h with
  | pending h => exact (hc _ h).elim .pending .actor
  | deferred h => exact (hd h).elim .deferred .actor
  | actor h => exact .actor (hp h)
  | @holder request h =>
    have h' : (s'.holders request).duty = some d := by rw [hh]; exact h
    exact .holder h'

/-- A holder changes and keeps its duty. -/
theorem setHolder (h : Duty s d) {request : ℕ} {holder : Holder}
    (hk : (s.holders request).duty = some d → holder.duty = some d) :
    Duty (s.setHolder request holder) d := by
  cases h with
  | pending h => exact .pending h
  | deferred h => exact .deferred h
  | actor h => exact .actor h
  | @holder req' h =>
    have h' : ((s.setHolder request holder).holders req').duty = some d := by
      by_cases hs : req' = request
      · subst hs
        simpa [ActorSystem.setHolder] using hk h
      · simpa [ActorSystem.setHolder, hs] using h
    exact .holder h'

theorem sendControl (h : Duty s d) (control : ControlCommand) : Duty (s.sendControl control) d :=
  h.congr (fun _ hm => .inl (List.mem_append_left _ hm)) .inl id rfl

end Duty

/-! ## The invariant -/

variable {s s' : ActorSystem}

/-- Requests are numbered from the first one that was never used. -/
def Fresh (s : ActorSystem) : Prop := ∀ request, s.nextRequest ≤ request → s.holders request = .gone

/-- The actor does not wait at an empty queue while a control message is pending, unless the
    sender of the message has not tried to wake it yet. -/
def Awake (s : ActorSystem) : Prop :=
  s.phase = .receive → s.commands = [] → ∀ control ∈ s.controls, control.1 ∈ s.wakers

/-- What every step keeps. -/
structure ActorInvariant (s : ActorSystem) : Prop where
  fresh : Fresh s
  responsible : Responsible s
  awake : Awake s

theorem Fresh.congr (h : Fresh s) (hh : s'.holders = s.holders)
    (hn : s'.nextRequest = s.nextRequest) : Fresh s' := by
  intro request hle
  rw [hh]
  exact h request (by omega)

theorem Fresh.setHolder (h : Fresh s) (hu : s.holders request ≠ .gone) (hol : Holder) :
    Fresh (s.setHolder request hol) := by
  intro req' hle
  have hne : req' ≠ request := by
    rintro rfl
    exact hu (h req' hle)
  simpa [ActorSystem.setHolder, hne] using h req' hle

theorem Awake.sendControl (h : Awake s) (control : ControlCommand) :
    Awake (s.sendControl control) := by
  intro hp he msg hm
  obtain hold | hn := List.mem_append.mp hm
  · exact List.mem_cons_of_mem _ (h hp he msg hold)
  · rw [List.mem_singleton.mp hn]
    exact List.mem_cons_self

/-- A holder that is in use changes and keeps its duty while its lease is live. -/
theorem ActorInvariant.setHolder (h : ActorInvariant s) {holder : Holder}
    (hu : s.holders request ≠ .gone)
    (hk : ∀ key lease, LiveLease s.operations key lease →
      (s.holders request).duty = some (key, lease) → holder.duty = some (key, lease)) :
    ActorInvariant (s.setHolder request holder) :=
  ⟨h.fresh.setHolder hu _,
    fun key lease hl => (h.responsible key lease hl).setHolder (hk key lease hl), h.awake⟩

/-- The actor goes on with another table. It goes to `recv` only when it has found the control
    channel empty. -/
theorem ActorInvariant.setPhase (h : ActorInvariant s) {phase : ActorPhase}
    (hr : phase = .receive → s.controls = [])
    (ho : ∀ key lease, LiveLease ops key lease → phase.duty = some (key, lease) ∨
      LiveLease s.operations key lease ∧ s.phase.duty ≠ some (key, lease)) :
    ActorInvariant { s with operations := ops, phase := phase } := by
  refine ⟨h.fresh.congr rfl rfl, fun key lease hl => ?_, fun hp _ control hm => ?_⟩
  · obtain hn | ⟨hold, hd⟩ := ho key lease hl
    · exact .actor hn
    · exact (h.responsible key lease hold).congr (fun _ => .inl) .inl (fun hp => absurd hp hd) rfl
  · rw [show s.controls = [] from hr hp] at hm
    cases hm

/-! ## Steps of the holders -/

theorem trySend_eq {cmd : QueuedCommand} (h : s.trySend capacity cmd = some s') :
    s' = { s with commands := s.commands ++ [cmd] } := by
  unfold ActorSystem.trySend at h
  split_ifs at h
  exact (Option.some.inj h).symm

/-- After the second half of `send_control` the queue is not empty. -/
theorem sendWake_eq (s : ActorSystem) (capacity msg : ℕ) : ∃ commands, s.sendWake capacity msg =
        { s with wakers := s.wakers.filter (· ≠ msg), commands := commands } ∧
      (0 < capacity → commands ≠ []) := by
  simp only [ActorSystem.sendWake, ActorSystem.trySend]
  split_ifs with hr
  · exact ⟨_, rfl, by simp⟩
  · refine ⟨s.commands, rfl, fun hp he => ?_⟩
    rw [he, List.length_nil] at hr
    exact hr hp

/-- What a request or its guard does in one step. -/
inductive HolderStep (capacity : ℕ) (s : ActorSystem) : ActorSystem → Prop
  | begin (command : QueuedCommand) : HolderStep capacity s
      ({ s with
          commands := s.commands ++ [command]
          nextRequest := s.nextRequest + 1 }.setHolder s.nextRequest .waiting)
  | send (command : QueuedCommand) :
      HolderStep capacity s { s with commands := s.commands ++ [command] }
  | turn {request : ℕ} {holder : Holder} : s.holders request ≠ .gone →
      (∀ d, (s.holders request).duty = some d → holder.duty = some d) →
      HolderStep capacity s (s.setHolder request holder)
  | sendAbandon {request : ℕ} {key : OperationKey} {lease : Uuid} :
      s.holders request = .dropping key lease →
      HolderStep capacity s ((s.setHolder request .gone).sendControl (.abandon key lease))
  | shutdown : HolderStep capacity s (s.sendControl .shutdown)
  | wake {wakers : List ℕ} {commands : List QueuedCommand} : (0 < capacity → commands ≠ []) →
      HolderStep capacity s { s with wakers := wakers, commands := commands }

theorem holderStep_cases (ha : ∀ now lease fails, e ≠ .actor now lease fails)
    (h : s.step limits capacity e = some s') : HolderStep capacity s s' := by
  cases e with
  | actor now lease fails => exact absurd rfl (ha now lease fails)
  | begin key fp =>
    obtain ⟨s₁, hs₁, rfl⟩ := Option.map_eq_some_iff.mp h
    rw [trySend_eq hs₁]
    exact .begin _
  | send key =>
    rw [trySend_eq h]
    exact .send _
  | markCommitStarted | complete =>
    simp only [ActorSystem.step] at h
    split at h
    · rw [trySend_eq h]
      exact .send _
    · cases h
  | receive request | finish request =>
    simp only [ActorSystem.step] at h
    split at h
    · next hh =>
      cases h
      exact .turn (by simp [hh]) (by simp [hh, Holder.duty])
    · cases h
  | drop request =>
    simp only [ActorSystem.step, ActorSystem.dropHolder] at h
    split at h
    · next hh =>
      cases h
      exact .turn (by simp [hh]) (by simp [hh, Holder.duty])
    · next hh =>
      cases h
      exact .turn (by simp [hh]) (by simp [hh, Holder.duty])
    · next key lease completed hh =>
      cases h
      cases completed <;> exact .turn (by simp [hh]) (by simp [hh, Holder.duty])
    · cases h
    · cases h
  | sendAbandon request =>
    simp only [ActorSystem.step] at h
    split at h
    · next hh =>
      cases h
      exact .sendAbandon hh
    · cases h
  | shutdown =>
    cases h
    exact .shutdown
  | sendWake msg =>
    simp only [ActorSystem.step] at h
    split_ifs at h
    cases h
    obtain ⟨commands, heq, hc⟩ := sendWake_eq s capacity msg
    rw [heq]
    exact .wake hc

theorem HolderStep.invariant (h : HolderStep capacity s s') (hp : 0 < capacity)
    (hi : ActorInvariant s) : ActorInvariant s' := by
  cases h with
  | begin cmd =>
    refine ⟨fun request hle => ?_, fun key lease hl => ?_, fun _ he => ?_⟩
    · have hlt : s.nextRequest < request := hle
      have hg : s.holders request = .gone := hi.fresh request hlt.le
      simpa [ActorSystem.setHolder, hlt.ne'] using hg
    · have hm : Duty (s.setHolder s.nextRequest .waiting) (key, lease) :=
        (hi.responsible key lease hl).setHolder fun hd => by
          rw [hi.fresh s.nextRequest le_rfl] at hd
          cases hd
      exact hm.congr (fun _ => .inl) .inl id rfl
    · simp [ActorSystem.setHolder] at he
  | send cmd =>
    refine ⟨hi.fresh.congr rfl rfl, fun key lease hl => ?_, fun _ he => by simp at he⟩
    exact (hi.responsible key lease hl).congr (fun _ => .inl) .inl id rfl
  | turn hu hk => exact hi.setHolder hu fun _ _ _ => hk _
  | @sendAbandon request key lease hh =>
    have hf : Fresh (s.setHolder request .gone) := hi.fresh.setHolder (by simp [hh]) .gone
    refine ⟨hf.congr rfl rfl, fun key' lease' hl => ?_,
      Awake.sendControl (s := s.setHolder request .gone) hi.awake _⟩
    -- The duty of the holder that ends is the message it sends.
    by_cases hsm : (key', lease') = (key, lease)
    · rw [hsm]
      exact .pending (List.mem_append_right _ List.mem_cons_self)
    · refine ((hi.responsible key' lease' hl).setHolder fun hd => ?_).sendControl _
      rw [hh] at hd
      exact absurd (Option.some.inj hd).symm hsm
  | shutdown =>
    exact ⟨hi.fresh.congr rfl rfl, fun key lease hl => (hi.responsible key lease hl).sendControl _,
      hi.awake.sendControl _⟩
  | wake hc =>
    refine ⟨hi.fresh.congr rfl rfl, fun key lease hl => ?_, fun _ he => absurd he (hc hp)⟩
    exact (hi.responsible key lease hl).congr (fun _ => .inl) .inl id rfl

/-! ## Steps of the actor -/

theorem eq_ok_of_transaction {α : Type} {r : Except String (α × Operations)}
    {x : α × Operations} (h : ActorSystem.transaction fails r = some x) : r = .ok x := by
  unfold ActorSystem.transaction at h
  split_ifs at h
  cases r with
  | error msg => cases h
  | ok y => rw [Option.some.inj h]

/-- After a failed abandonment the lease is deferred, and nothing else has changed. -/
theorem abandonFailed_eq (key : OperationKey) (lease : Uuid) (o : AbandonOrigin) :
    ∃ deferred, s.abandonFailed key lease o = { s with deferred := deferred } ∧
      (key, lease) ∈ deferred ∧ s.deferred ⊆ deferred := by
  cases o with
  | deferred =>
    exact ⟨_, rfl, List.mem_append_right _ List.mem_cons_self, List.subset_append_left _ _⟩
  | control | undelivered =>
    simp only [ActorSystem.abandonFailed, ActorSystem.deferAbandon]
    split_ifs with hm
    · exact ⟨_, rfl, hm, List.Subset.refl _⟩
    · exact ⟨_, rfl, List.mem_append_right _ List.mem_cons_self, List.subset_append_left _ _⟩

theorem finishAbandon_invariant {o : AbandonOrigin} (h : ActorInvariant s)
    (hp : s.phase = .abandoning key lease o) :
    ActorInvariant (s.finishAbandon limits now fails key lease o) := by
  have ha : ActorSystem.afterAbandon o ≠ .receive := by cases o <;> simp [ActorSystem.afterAbandon]
  unfold ActorSystem.finishAbandon
  dsimp only
  split
  · next ops hr =>
    -- The lease is not live any more; what else is live is somebody else's duty.
    have hok : abandonOperation limits now s.operations key lease = .ok ops := by
      have hm := eq_ok_of_transaction hr
      cases ha : abandonOperation limits now s.operations key lease with
      | error msg => rw [ha] at hm; cases hm
      | ok ops' => rw [ha] at hm; cases hm; rfl
    refine h.setPhase (fun heq => absurd heq ha) fun key' lease' hl => .inr ?_
    obtain ⟨hold, ho⟩ := abandonOperation_live hok hl
    refine ⟨hold, fun hd => ?_⟩
    rw [hp] at hd
    cases hd
    exact absurd ⟨rfl, rfl⟩ ho
  · obtain ⟨deferred, heq, hm, hsub⟩ := abandonFailed_eq (s := s) key lease o
    rw [heq]
    refine ⟨h.fresh.congr rfl rfl, fun key' lease' hl => ?_, fun hc => absurd hc ha⟩
    by_cases how : (key', lease') = (key, lease)
    · rw [how]
      exact .deferred hm
    refine (h.responsible key' lease' hl).congr (fun _ => .inl) (fun hd => .inl (hsub hd))
      (fun hd => ?_) rfl
    rw [hp] at hd
    exact absurd (Option.some.inj hd).symm how

theorem executeCommand_invariant {cmd : QueuedCommand} (h : ActorInvariant s)
    (hp : s.phase = .execute cmd) :
    ActorInvariant (s.executeCommand limits now lease fails cmd) := by
  have hk : ∀ ops phase, phase ≠ .receive →
      (∀ key lease, LiveLease ops key lease →
        phase.duty = some (key, lease) ∨ LiveLease s.operations key lease) →
      ActorInvariant { s with operations := ops, phase := phase } := fun ops phase hne ho =>
    h.setPhase (fun heq => absurd heq hne) fun key lease hl =>
      (ho key lease hl).imp_right fun hold => ⟨hold, by simp [hp, ActorPhase.duty]⟩
  have hi : ∀ phase, phase ≠ .receive → ActorInvariant { s with phase := phase } :=
    fun phase hne => hk _ phase hne fun _ _ => .inr
  cases cmd with
  | wake | other => exact hi .retry (by simp)
  | begin request key fp =>
    simp only [ActorSystem.executeCommand]
    split_ifs
    · exact hi .retry (by simp)
    split
    · next begin ops hr =>
      refine hk _ _ (by simp) fun key' lease' hl => ?_
      obtain hold | ⟨rfl, rfl⟩ := beginOperation_live (eq_ok_of_transaction hr) hl
      · exact .inr hold
      · exact .inl rfl
    · exact hi _ (by simp)
  | status key =>
    simp only [ActorSystem.executeCommand]
    split
    · next a ops hr =>
      refine hk ops .retry (by simp) fun key' lease' hl => .inr ?_
      exact operationStatus_live (eq_ok_of_transaction hr) hl
    · exact hi .retry (by simp)
  | markCommitStarted key lease' =>
    simp only [ActorSystem.executeCommand]
    split
    · next a ops hr =>
      have heq := Except.ok.inj (eq_ok_of_transaction hr)
      refine hk ops .retry (by simp) fun key' lease' hl => .inr ?_
      rw [show ops = _ from (congrArg Prod.snd heq).symm] at hl
      exact markOperationCommitStarted_live hl
    · exact hi .retry (by simp)
  | complete request key lease' out =>
    simp only [ActorSystem.executeCommand]
    split
    · next chg ops hr =>
      have hlive_of := fun key' l'' (hl : LiveLease ops key' l'') =>
        completeOperation_live (eq_ok_of_transaction hr) hl
      have hrs := hk ops .retry (by simp) fun key' l'' hl => .inr (hlive_of key' l'' hl).1
      split_ifs with hdn
      · -- The completed lease is not live, so its guard has no duty any more.
        refine hrs.setHolder (by simp [hdn.2]) fun key' l'' hl hd => ?_
        rw [hdn.2] at hd
        cases hd
        exact absurd ⟨rfl, rfl⟩ (hlive_of _ _ hl).2
      · exact hrs
    · exact hi .retry (by simp)

/-- The actor has a reply to deliver only if an operation has started. -/
theorem reply_duty {r : Option StoreBegin} {d : OperationKey × Uuid}
    (h : (ActorPhase.reply request key r).duty = some d) :
    ∃ lease, r = some (.started lease) ∧ d = (key, lease) := by
  unfold ActorPhase.duty at h
  split at h
  · next heq => cases heq
  · next heq =>
    cases heq
    exact ⟨_, rfl, (Option.some.inj h).symm⟩
  · cases h

theorem sendReply_invariant {r : Option StoreBegin} (h : ActorInvariant s)
    (hp : s.phase = .reply request key r) : ActorInvariant (s.sendReply request key r) := by
  have hr : (∀ lease, r ≠ some (.started lease)) → ActorInvariant { s with phase := .retry } :=
    fun hn => h.setPhase (by simp) fun key' lease' hl => .inr ⟨hl, fun hd => by
      rw [hp] at hd
      obtain ⟨lease, heq, -⟩ := reply_duty hd
      exact hn lease heq⟩
  unfold ActorSystem.sendReply
  split
  · next lease hw =>
    -- The envelope goes from the actor into the reply channel.
    have hf : Fresh (s.setHolder request (.offered key lease)) :=
      h.fresh.setHolder (by simp [hw]) _
    refine ⟨hf.congr rfl rfl, fun key' lease' hl => ?_, fun hc => by cases hc⟩
    by_cases how : (key', lease') = (key, lease)
    · rw [how]
      have ho : (({ s with phase := .retry }.setHolder request
          (.offered key lease)).holders request).duty = some (key, lease) := by
        simp [ActorSystem.setHolder, Holder.duty]
      exact .holder ho
    · have hk : Duty { s with phase := .retry } (key', lease') := by
        refine (h.responsible key' lease' hl).congr (fun _ => .inl) .inl (fun hd => ?_) rfl
        rw [hp] at hd
        exact absurd (Option.some.inj hd).symm how
      exact hk.setHolder (by simp [hw, Holder.duty])
  · next hw hn => exact (hr hn).setHolder (by simp [hw]) (by simp [hw, Holder.duty])
  · next lease hn =>
    refine h.setPhase (by simp) fun key' lease' hl => ?_
    by_cases how : (key, lease) = (key', lease')
    · exact .inl (congrArg some how)
    · exact .inr ⟨hl, fun hd => how (by rw [hp] at hd; exact Option.some.inj hd)⟩
  · next hn _ _ => exact hr hn

/-- What the actor takes from a queue becomes its own duty. -/
theorem ActorInvariant.take (h : ActorInvariant s) (hd : s.phase.duty = none) {phase : ActorPhase}
    {controls : List (ℕ × ControlCommand)} {deferred : List (OperationKey × Uuid)}
    {commands : List QueuedCommand} (hr : phase ≠ .receive)
    (hc : ∀ message key lease, (message, .abandon key lease) ∈ s.controls →
      (message, .abandon key lease) ∈ controls ∨ phase.duty = some (key, lease))
    (hdf : ∀ d ∈ s.deferred, d ∈ deferred ∨ phase.duty = some d) :
    ActorInvariant { s with
      controls := controls
      deferred := deferred
      commands := commands
      phase := phase } := by
  refine ⟨h.fresh.congr rfl rfl, fun key lease hl => ?_, fun heq => absurd heq hr⟩
  exact (h.responsible key lease hl).congr (fun _ => hc _ _ _) (hdf _) (by simp [hd]) rfl

theorem actorStep_invariant (h : ActorInvariant s)
    (hs : s.actorStep limits now lease fails = some s') : ActorInvariant s' := by
  unfold ActorSystem.actorStep at hs
  split at hs
  · next hp =>
    split at hs
    · cases hs
      exact h.setPhase (by simp) fun _ _ hl => .inr ⟨hl, by simp [hp, ActorPhase.duty]⟩
    next key lease' rest hdf =>
    cases hs
    refine h.take (by rw [hp]; rfl) (by simp) (fun _ _ _ => .inl) fun d hm => ?_
    rw [hdf] at hm
    obtain heq | hr := List.mem_cons.mp hm
    · cases heq
      exact .inr rfl
    · exact .inl hr
  · next key lease' o hp =>
    cases hs
    exact finishAbandon_invariant h hp
  · next hp =>
    split at hs
    · next he =>
      cases hs
      exact h.setPhase (fun _ => he) fun _ _ hl => .inr ⟨hl, by simp [hp, ActorPhase.duty]⟩
    · next msg key lease' rest hc =>
      cases hs
      refine h.take (by rw [hp]; rfl) (by simp) (fun _ _ _ hm => ?_) fun _ => .inl
      rw [hc] at hm
      obtain heq | hr := List.mem_cons.mp hm
      · cases heq
        exact .inr rfl
      · exact .inl hr
    · next msg rest hc =>
      cases hs
      refine h.take (by rw [hp]; rfl) (by simp) (fun _ _ _ hm => ?_) fun _ => .inl
      rw [hc] at hm
      obtain heq | hr := List.mem_cons.mp hm
      · cases heq
      · exact .inl hr
  · next hp =>
    split at hs
    · cases hs
    · cases hs
      exact h.take (by rw [hp]; rfl) (by simp) (fun _ _ _ => .inl) fun _ => .inl
  · next cmd hp =>
    cases hs
    exact executeCommand_invariant h hp
  · next request key r hp =>
    cases hs
    exact sendReply_invariant h hp
  · cases hs

/-! ## Runs -/

theorem ActorInvariant.step (hps : 0 < capacity) (h : ActorInvariant s)
    (hs : s.step limits capacity e = some s') : ActorInvariant s' := by
  by_cases ha : ∃ now lease fails, e = .actor now lease fails
  · obtain ⟨now, lease, fails, rfl⟩ := ha
    exact actorStep_invariant h hs
  · have hh : ∀ now lease fails, e ≠ .actor now lease fails :=
      fun now lease fails heq => ha ⟨now, lease, fails, heq⟩
    exact (holderStep_cases hh hs).invariant hps h

theorem ActorInvariant.of_reachable {recovered : Operations} (hp : 0 < capacity)
    (hr : recoverOperations limits now ops = .ok recovered) {s : ActorSystem}
    (h : (actorMachine limits capacity recovered).Reachable (fun _ _ => True) s) :
    ActorInvariant s := by
  have hi : ActorInvariant (actorMachine limits capacity recovered).init :=
    ⟨fun _ _ => rfl, fun key lease hl => absurd hl (recoverOperations_live hr), nofun⟩
  exact h.invariant hi fun s e s' _ hs _ hst => hs.step hp hst

/-- A guard that has not learned of a completion holds the operation. -/
def Held (s : ActorSystem) (key : OperationKey) (lease : Uuid) : Prop :=
  ∃ request, s.holders request = .holding key lease false

/-- The operation will be abandoned: by a pending message, by a deferred entry, or by a cleanup
    that is being executed or is still armed. -/
inductive Covered (s : ActorSystem) (key : OperationKey) (lease : Uuid) : Prop
  | pending {message : ℕ} : (message, .abandon key lease) ∈ s.controls → Covered s key lease
  | deferred : (key, lease) ∈ s.deferred → Covered s key lease
  | executing {origin : AbandonOrigin} : s.phase = .abandoning key lease origin → Covered s key lease
  /-- Armed in the envelope that the actor is sending. -/
  | undelivered {request : ℕ} :
    s.phase = .reply request key (some (.started lease)) → Covered s key lease
  /-- Armed in the reply channel. -/
  | offered {request : ℕ} : s.holders request = .offered key lease → Covered s key lease
  /-- Armed in a `drop` that has not sent its message yet. -/
  | dropping {request : ℕ} : s.holders request = .dropping key lease → Covered s key lease

theorem Duty.held_or_covered (h : Duty s (key, lease)) :
    Held s key lease ∨ Covered s key lease := by
  cases h with
  | pending h => exact .inr (.pending h)
  | deferred h => exact .inr (.deferred h)
  | actor h =>
    generalize hp : s.phase = phase at h
    unfold ActorPhase.duty at h
    split at h
    · cases h
      exact .inr (.executing hp)
    · cases h
      exact .inr (.undelivered hp)
    · cases h
  | @holder request h =>
    generalize hh : s.holders request = holder at h
    unfold Holder.duty at h
    split at h
    · cases h
      exact .inr (.offered hh)
    · cases h
      exact .inl ⟨request, hh⟩
    · cases h
      exact .inr (.dropping hh)
    · cases h
    · cases h
    · cases h

/-- In every run of the actor, with any queue that has room for a command and whatever
    transactions fail: while the actor lives, every operation that is reserved or whose commit
    has started is held by a guard or covered by an abandonment; and the actor does not stay
    blocked on an empty queue while a control message is pending, unless the sender of that
    message has not yet tried to wake it. -/
theorem reservations_abandoned (limits : Limits) (capacity : ℕ) (ops : Operations) (now : ℤ) :
    ∀ recovered, recoverOperations limits now ops = .ok recovered → 0 < capacity →
      ∀ s, (actorMachine limits capacity recovered).Reachable (fun _ _ => True) s →
        (s.phase ≠ .stopped → ∀ key row, s.operations.get key = some row →
          row.state ≠ .completed →
            Held s key row.leaseToken ∨ Covered s key row.leaseToken) ∧
        (s.phase = .receive → s.commands = [] →
          ∀ control ∈ s.controls, control.1 ∈ s.wakers) := by
  intro recovered hr hp s hs
  have hi := ActorInvariant.of_reachable hp hr hs
  refine ⟨fun _ key row hg hst => ?_, hi.awake⟩
  exact (hi.responsible key row.leaseToken ⟨row, hg, hst, rfl⟩).held_or_covered

/-- An operation begins, its holder goes away before the reply, and the abandonment fails. -/
def undeliveredRun : List ActorEvent :=
  [.begin ⟨1, 2⟩ 3, .actor 0 0 false, .actor 0 0 false, .actor 0 0 false, .actor 10 4 false,
    .drop 0, .actor 0 0 false, .actor 20 0 true]

theorem reservations_abandoned_undelivered : ∃ (s : ActorSystem) (row : OperationRow),
    s.operations.get ⟨1, 2⟩ = some row ∧
      (Held s ⟨1, 2⟩ row.leaseToken ∨ Covered s ⟨1, 2⟩ row.leaseToken) := by
  obtain ⟨s, hs, hp⟩ := (actorMachine ⟨8, 4, 60000⟩ 1 .empty).exists_reachable_of_run undeliveredRun
    (fun s => decide (s.phase ≠ .stopped) && (s.operations.get ⟨1, 2⟩).any (·.state ≠ .completed))
    (fun _ _ _ => trivial) (by decide)
  obtain ⟨hst, ho⟩ := Bool.and_eq_true_iff.mp hp
  obtain ⟨row, hg, hc⟩ := (Option.any_eq_true _ _).mp ho
  exact ⟨s, row, hg, (reservations_abandoned ⟨8, 4, 60000⟩ 1 .empty 0 .empty rfl (by decide) s hs).1
    (of_decide_eq_true hst) ⟨1, 2⟩ row hg (of_decide_eq_true hc)⟩

end DufsRam.StateStore
