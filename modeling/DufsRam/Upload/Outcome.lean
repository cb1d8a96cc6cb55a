import DufsRam.Upload.Transfer

/-!
# What the functions of an upload can do

One inversion lemma for each function whose result is looked at in several places: the
records, the reopening of a stage, the cut of a file, and the handling of failures.

Results:
* `persistStage_cases`: a record that names the stage syncs it, or says so.
* `openResumableStage_eq_some`: what is checked before a stage is reopened.
* `settleFailure_settled` and `finishTimedOutUpload_timedOut`: the ways a failed transfer ends.
-/

namespace DufsRam.Upload

open StateStore RootedFs

/-! ## Records -/

/-- The session of a transaction with a state and an offset. -/
def Config.sessionOf (c : Config) (tx : UploadTransaction) (state : StoredUploadState)
    (durableOffset : ℕ) (targetRevision : Option Digest) : StoredUploadSession Path :=
  ⟨c.targetPath, c.stagePath, tx.request.uploadLength, durableOffset, state, some tx.file,
    targetRevision⟩

/-- What `persist_state` does to the state: nothing, the sweep of expired rows, or the
    storing of the session, and then perhaps only the answer is lost. -/
inductive Persisted (s : System) (now : ℤ) (key : UploadSessionKey)
    (proposed : StoredUploadSession Path) : Bool → System → Prop
  | refused : Persisted s now key proposed false s
  | swept : Persisted s now key proposed false { s with sessions := swept s.sessions now }
  | stored (ok : Bool) (expiresAt : ℤ)
      (admitted : Admitted (StateStore.swept s.sessions now) key proposed) :
      Persisted s now key proposed ok
        { s with
          sessions := (StateStore.swept s.sessions now).put key ⟨proposed, expiresAt⟩
          rolledBack :=
            if proposed.state.isTerminal then s.rolledBack
            else s.rolledBack.filter fun k => decide (k ≠ key) }

theorem persistState_persisted (s : System) (c : Config) (now : ℤ) (key : UploadSessionKey)
    (len : ℕ) (rev : Option (Option Digest)) (off : ℕ)
    (st : StoredUploadState) (fid : Option FileIdentity) (f : Option StoreFault) :
    Persisted s now key
      (s.proposedSession c key len rev off st fid) (s.persistState c now key len rev off st fid f).1
      (s.persistState c now key len rev off st fid f).2 := by
  unfold System.persistState
  cases hsa : saveUploadSession c.limits now s.sessions key
      (s.proposedSession c key len rev off st fid) with
  | error e => exact .refused
  | ok a =>
    obtain ⟨r, ses⟩ := a
    have hsv : ∀ ok : Bool, (ok = true → r.stored = true) → Persisted s now key
        (s.proposedSession c key len rev off st fid) ok
        (s.saved key st r ses) := by
      intro ok hok
      obtain ⟨hs, rfl⟩ | ⟨hs, exp, -, rfl, ha, -⟩ := saveUploadSession_outcome hsa
      · cases ok with
        | true => rw [hok rfl] at hs; cases hs
        | false => simpa [System.saved, hs] using Persisted.swept
      · have := Persisted.stored ok exp ha
        cases ht : st.isTerminal <;>
          simpa [System.saved, hs, System.proposedSession, ht] using this
    cases f with
    | none => exact hsv r.stored id
    | some f =>
      cases f with
      | refused => exact .refused
      | lost => exact hsv false (by simp)

/-- What becomes of the queue and the file before a record is stored: some of the queue is
    lost, all of it has reached the file, or the file is synced as well. -/
inductive Flushed (s : System) (tx : UploadTransaction) : System → UploadTransaction → Prop
  | lost (landed : ℕ) :
      Flushed s tx (s.land tx landed).1 { (s.land tx landed).2 with queued := [] }
  | landed : Flushed s tx (s.land tx tx.queued.length).1 (s.land tx tx.queued.length).2
  | synced : Flushed s tx ((s.land tx tx.queued.length).1.updateData tx.file DurableFile.sync)
      (s.land tx tx.queued.length).2

/-- The state in which `persist_checkpoint_inner` stores the session. -/
def System.syncedStage (s : System) (tx : UploadTransaction) (syncParent : Bool) : System :=
  { (s.land tx tx.queued.length).1.updateData tx.file DurableFile.sync with
    entrySynced := s.entrySynced || syncParent }

variable {ok : Bool} {s' s s₁ : System} {tx' tx tx₁ : UploadTransaction} {c : Config} {now : ℤ}

theorem syncAndIdentifyStage_cases (s : System) (tx : UploadTransaction) (off : ℕ)
    (f : Option PersistFault)
    (h : s.syncAndIdentifyStage tx off f = (ok, s', tx')) :
    (ok = false ∧ Flushed s tx s' tx') ∨
      (ok = true ∧ s' = (s.land tx tx.queued.length).1.updateData tx.file DurableFile.sync ∧
        tx' = (s.land tx tx.queued.length).2 ∧ s.stage = some tx.file ∧
        off ≤ (s'.files tx.file).data.content.length) := by
  unfold System.syncAndIdentifyStage at h
  split at h
  · next ld =>
    cases h
    exact Or.inl ⟨rfl, .lost ld⟩
  · cases h
    exact Or.inl ⟨rfl, .landed⟩
  · -- Every other fault leaves the checks of the synced stage to decide.
    simp only [Prod.mk.injEq] at h
    obtain ⟨hok, rfl, rfl⟩ := h
    cases ok with
    | false => exact Or.inl ⟨rfl, .synced⟩
    | true =>
      simp only [Bool.and_eq_true, decide_eq_true_iff] at hok
      exact Or.inr ⟨rfl, rfl, rfl, hok.2, hok.1.2⟩

theorem ite_entrySynced_eq (s : System) (tx : UploadTransaction) (syncParent : Bool) :
    (if syncParent = true then
      { (s.land tx tx.queued.length).1.updateData tx.file DurableFile.sync with
        entrySynced := true }
    else (s.land tx tx.queued.length).1.updateData tx.file DurableFile.sync) =
      s.syncedStage tx syncParent := by
  cases syncParent <;> simp [System.syncedStage, System.land, System.updateData]

/-- The proposed session is that of the transaction; an unbound revision is the stored one. -/
theorem proposedSession_eq_sessionOf (s : System) (c : Config) (tx : UploadTransaction)
    (rev : Option (Option Digest)) (off : ℕ) (st : StoredUploadState) :
    ∃ targetRevision, (∀ r, rev = some r → targetRevision = r) ∧
      s.proposedSession c (c.key tx.request.owner) tx.request.uploadLength rev off
        st (some tx.file) = c.sessionOf tx st off targetRevision := by
  cases rev with
  | some r => exact ⟨r, fun _ h => Option.some.inj h, rfl⟩
  | none => exact ⟨_, fun _ h => (by cases h), rfl⟩

/-- The outcomes of a record that names the stage: the stage could not be synced or is not the
    one that is open, or the session was handed to the store. -/
theorem persistStage_cases (s : System) (c : Config) (now : ℤ) (tx : UploadTransaction)
    (rev : Option (Option Digest)) (off : ℕ) (st : StoredUploadState)
    (sp : Bool) (f : Option PersistFault)
    (h : s.persistStage c now tx rev off st sp f = (ok, s', tx')) :
    (ok = false ∧ Flushed s tx s' tx') ∨
      (tx' = (s.land tx tx.queued.length).2 ∧ s.stage = some tx.file ∧
        off ≤ ((s.syncedStage tx sp).files tx.file).data.content.length ∧
        ∃ targetRevision, (∀ r, rev = some r → targetRevision = r) ∧
          Persisted (s.syncedStage tx sp) now (c.key tx.request.owner)
            (c.sessionOf tx st off targetRevision) ok s') := by
  unfold System.persistStage at h
  cases hs : s.syncAndIdentifyStage tx off f with
  | mk ok₁ out =>
    obtain ⟨s₁, tx₁⟩ := out
    rw [hs] at h
    obtain ⟨rfl, hfl⟩ | ⟨rfl, rfl, rfl, hst, hl⟩ :=
      syncAndIdentifyStage_cases s tx off f hs
    · cases h
      exact Or.inl ⟨rfl, hfl⟩
    simp only at h
    by_cases hp : sp = true ∧ f = some .syncParent
    · rw [if_pos hp] at h
      cases h
      exact Or.inl ⟨rfl, .synced⟩
    rw [if_neg hp] at h
    rw [ite_entrySynced_eq] at h
    have hpd := persistState_persisted (s.syncedStage tx sp) c now
      (c.key tx.request.owner) tx.request.uploadLength rev off st
      (some tx.file) (System.storeFault f)
    obtain ⟨targetRevision, hr, hpr⟩ := proposedSession_eq_sessionOf
      (s.syncedStage tx sp) c tx rev off st
    rw [hpr] at hpd
    cases h
    exact Or.inr ⟨rfl, hst, hl, targetRevision, hr, hpd⟩

/-- The session of a stored transaction. -/
theorem Persisted.get {p : StoredUploadSession Path}
    (h : Persisted s now (c.key tx.request.owner) p true s') :
    ∃ exp, s'.sessions.get (c.key tx.request.owner) = some ⟨p, exp⟩ := by
  cases h with
  | stored _ exp => exact ⟨exp, by simp⟩

/-- Storing a session changes the sessions and the history of rollbacks. -/
theorem Persisted.frame {key : UploadSessionKey} {p : StoredUploadSession Path}
    (h : Persisted s now key p ok s') :
    s' = { s with sessions := s'.sessions, rolledBack := s'.rolledBack } := by
  cases h <;> rfl

/-! ## Reopening a stage -/

theorem Config.binds_iff {sess : StoredUploadSession Path} : c.binds sess = true ↔
      sess.targetPath = c.targetPath ∧ sess.stagePath = c.stagePath := by
  simp [Config.binds]

/-- What `open_resumable_stage` has checked when it answers a file. -/
theorem openResumableStage_eq_some {r : UploadRequest} {off : ℕ}
    {expectedState : UploadRecordState} {denied : Bool} {file : FileIdentity}
    (h : s.openResumableStage c r off expectedState denied = some file) :
    s.stage = some file ∧ off ≤ (s.files file).data.content.length ∧
      ∃ st rev exp,
        s.sessions.get (c.key r.owner) = some ⟨⟨c.targetPath, c.stagePath, r.uploadLength,
          off, st, some file, rev⟩, exp⟩ ∧
        (expectedState = .running ∧ st = .running ∨
          expectedState = .awaitingConfirmation ∧ st = .awaitingConfirmation ∧
            (s.files file).data.content.length = off) := by
  unfold System.openResumableStage at h
  split at h
  · cases h
  rename_i sess exp hg
  split_ifs at h with hb
  simp only [not_or, not_not, Bool.not_eq_true', Bool.not_eq_false] at hb
  obtain ⟨hbn, hl, hof⟩ := hb
  obtain ⟨ht, hp⟩ := Config.binds_iff.mp hbn
  obtain ⟨tp, sp, len, offset, st, fid, rev⟩ := sess
  simp only at ht hp hl hof h
  subst ht hp hl hof
  split at h
  · split_ifs at h with ho
    cases h
    exact ⟨ho.2.1, ho.2.2, _, _, _, hg, Or.inl ⟨rfl, rfl⟩⟩
  · split_ifs at h with ho
    cases h
    exact ⟨ho.2.1, ho.2.2.ge, _, _, _, hg, Or.inr ⟨rfl, rfl, ho.2.2⟩⟩
  · cases h

/-! ## Failures -/

/-- A function that works on the data of the open file and on the queue. -/
structure DataOnly (s : System) (tx : UploadTransaction) (s₁ : System) (tx₁ : UploadTransaction) :
    Prop where
  request : ∃ cursor queued, tx₁ = { tx with cursor := cursor, queued := queued }
  data : ∃ f, s₁ = s.updateData tx.file f

theorem updateData_updateData (s : System) (i : FileIdentity)
    (f g : DurableFile UInt8 → DurableFile UInt8) :
    (s.updateData i f).updateData i g = s.updateData i (g ∘ f) := by
  simp [System.updateData]

theorem land_dataOnly (s : System) (tx : UploadTransaction) (k : ℕ) :
    DataOnly s tx (s.land tx k).1 (s.land tx k).2 :=
  ⟨⟨_, _, rfl⟩, fun f => f.writeAt 0 tx.cursor (tx.queued.take k), rfl⟩

theorem DataOnly.queued (h : DataOnly s tx s₁ tx₁) (queued : List UInt8) :
    DataOnly s tx s₁ { tx₁ with queued := queued } := by
  obtain ⟨⟨cur, qd', rfl⟩, hd⟩ := h
  exact ⟨⟨_, _, rfl⟩, hd⟩

theorem cutBack_dataOnly {f : Option System.TruncateFault} (h : s.cutBack tx f = (ok, s₁, tx₁)) :
    DataOnly s tx s₁ tx₁ := by
  cases f with
  | none =>
    cases h
    exact ⟨⟨_, _, rfl⟩, _, updateData_updateData _ _ _ _⟩
  | some f =>
    cases f with
    | setLen ld =>
      cases h
      exact (land_dataOnly s tx ld).queued []
    | sync =>
      cases h
      exact ⟨⟨_, _, rfl⟩, _, updateData_updateData _ _ _ _⟩

theorem flush_flushed (s : System) (tx : UploadTransaction) (f : Option ℕ) :
    Flushed s tx (s.flush tx f).2.1 (s.flush tx f).2.2 := by
  cases f with
  | none => exact .landed
  | some ld => exact .lost ld

theorem Flushed.dataOnly (h : Flushed s tx s₁ tx₁) : DataOnly s tx s₁ tx₁ := by
  cases h with
  | lost landed => exact (land_dataOnly s tx landed).queued []
  | landed => exact land_dataOnly s tx _
  | synced => exact ⟨⟨_, _, rfl⟩, _, updateData_updateData _ _ _ _⟩

/-- Nothing is queued after a flush, whether it succeeds or not. -/
theorem Flushed.queued (h : Flushed s tx s₁ tx₁) : tx₁.queued = [] := by
  cases h with
  | lost landed => rfl
  | landed | synced => exact List.drop_length

theorem cutBack_queued {f : Option System.TruncateFault} (h : s.cutBack tx f = (ok, s₁, tx₁)) :
    tx₁.queued = [] := by
  cases f with
  | none => cases h; exact List.drop_length
  | some f =>
    cases f with
    | setLen ld => cases h; rfl
    | sync => cases h; exact List.drop_length

theorem persistCheckpoint_request {rev : Option (Option Digest)} {off : ℕ}
    {ini : Bool} {f : Option PersistFault}
    (h : s.persistCheckpoint c now tx rev off ini f = (ok, s', tx')) :
    ∃ cursor queued, tx' = { tx with cursor := cursor, queued := queued } := by
  unfold System.persistCheckpoint at h
  split_ifs at h
  · obtain ⟨-, hfl⟩ | ⟨rfl, -⟩ :=
      persistStage_cases s c now tx rev off .running ini f h
    · cases hfl <;> exact ⟨_, _, rfl⟩
    · exact ⟨_, _, rfl⟩
  · cases h
    exact ⟨_, _, rfl⟩

/-- How the failure of a transfer is settled. -/
inductive Settled (s : System) (c : Config) (tx : UploadTransaction) (f : SettleFaults) :
    System → Prop
  | confirmation : tx.awaiting = true → Settled s c tx f (s.finish tx)
  | unreadable : f.metadata = true → Settled s c tx f (s.finish tx)
  | late : Settled s c tx f (s.enter tx .timedOut)
  | cut {ok : Bool} {s' : System} {tx' : UploadTransaction} :
      s.cutBack tx f.truncate = (ok, s', tx') → Settled s c tx f (s'.finish tx')
  | undone : tx.resume = false → Settled s c tx f (s.rollBack tx false)
  | cutUndone {s' : System} {tx' : UploadTransaction} : s.cutBack tx f.truncate = (true, s', tx') →
      tx.resume = false → Settled s c tx f (s'.rollBack tx' false)
  | checkpoint : tx.awaiting = false → Settled s c tx f (s.checkpointPartial c tx
      (if f.metadata then 0 else (s.files tx.file).data.content.length) f)

theorem settleFailure_settled (s : System) (c : Config) (tx : UploadTransaction)
    (err : UploadTransferError) (f : SettleFaults) :
    Settled s c tx f (s.settleFailure c tx err f) := by
  unfold System.settleFailure
  by_cases haw : tx.awaiting = true
  · rw [if_pos haw]
    exact .confirmation haw
  rw [if_neg haw]
  by_cases ht : err = .totalTimeout
  · rw [if_pos ht]
    exact .late
  rw [if_neg ht]
  by_cases hm : f.metadata = true ∧ tx.resume = true
  · rw [if_pos hm]
    exact .unreadable hm.1
  rw [if_neg hm]
  cases hc : s.cutBack tx f.truncate with
  | mk ok out =>
  obtain ⟨s', tx'⟩ := out
  have hrs' : tx'.resume = tx.resume := by
    obtain ⟨⟨cur, qd, rfl⟩, -⟩ := cutBack_dataOnly hc
    rfl
  cases err with
  | excessBody =>
    cases hrs : tx.resume with
    | true => simpa using Settled.cut hc
    | false => simpa using Settled.undone hrs
  | insufficientStorage =>
    cases ok with
    | false => exact .cut hc
    | true =>
      cases hrs : tx.resume with
      | true => simpa [hrs', hrs] using Settled.cut hc
      | false => simpa [hrs', hrs] using Settled.cutUndone hc hrs
  | io | idleTimeout | totalTimeout => exact .checkpoint (by simpa using haw)

/-- How a late upload ends; `s₁` and `tx₁` are the state and the transaction after the flush. -/
inductive TimedOut (s₁ : System) (c : Config) (tx₁ : UploadTransaction) (f : SettleFaults) :
    System → Prop
  | returned : tx₁.resume = true → TimedOut s₁ c tx₁ f (s₁.finish tx₁)
  | unrecorded : tx₁.resume = false → TimedOut s₁ c tx₁ f (s₁.enter tx₁ (.discarding true))
  | unreadable : f.metadata = true → tx₁.resume = false → TimedOut s₁ c tx₁ f (s₁.rollBack tx₁ false)
  | checkpoint {ok : Bool} {s' : System} {tx' : UploadTransaction} :
      partialUploadIsCheckpointable (s₁.files tx₁.file).data.content.length tx₁.initialOffset
        tx₁.request.uploadLength tx₁.resume = true →
      s₁.persistCheckpoint c f.now tx₁ none (s₁.files tx₁.file).data.content.length (!tx₁.resume)
        f.persist = (ok, s', tx') →
      TimedOut s₁ c tx₁ f
        (if ok = true ∨ tx₁.resume = true then s'.finish tx' else s'.enter tx' (.discarding true))
  | cut {ok : Bool} {s' : System} {tx' : UploadTransaction} : tx₁.resume = true →
      s₁.cutBack tx₁ f.truncate = (ok, s', tx') → TimedOut s₁ c tx₁ f (s'.finish tx')

theorem finishTimedOutUpload_timedOut (s : System) (c : Config) (tx : UploadTransaction)
    (flush : Option ℕ) (f : SettleFaults) :
    ∃ s₁ tx₁, Flushed s tx s₁ tx₁ ∧ TimedOut s₁ c tx₁ f (s.finishTimedOutUpload c tx flush f) := by
  refine ⟨_, _, flush_flushed s tx flush, ?_⟩
  unfold System.finishTimedOutUpload
  cases hf : s.flush tx flush with
  | mk ok out =>
  obtain ⟨s₁, tx₁⟩ := out
  cases ok with
  | false =>
    cases hrs : tx₁.resume with
    | true => simpa [hrs] using TimedOut.returned hrs
    | false => simpa [hrs] using TimedOut.unrecorded hrs
  | true =>
    simp only
    by_cases hm : f.metadata = true
    · rw [if_pos hm]
      cases hrs : tx₁.resume with
      | true => simpa using TimedOut.returned hrs
      | false => simpa using TimedOut.unreadable hm hrs
    rw [if_neg hm]
    by_cases hcp : partialUploadIsCheckpointable (s₁.files tx₁.file).data.content.length
        tx₁.initialOffset tx₁.request.uploadLength tx₁.resume = true
    · rw [if_pos hcp]
      cases hp : s₁.persistCheckpoint c f.now tx₁ none
          (s₁.files tx₁.file).data.content.length (!tx₁.resume) f.persist with
      | mk ok out =>
        obtain ⟨s', tx'⟩ := out
        have hrs' : tx'.resume = tx₁.resume := by
          obtain ⟨cur, qd, rfl⟩ := persistCheckpoint_request hp
          rfl
        have := TimedOut.checkpoint hcp hp
        cases ok with
        | true => simpa using this
        | false => simpa [hrs'] using this
    · rw [if_neg hcp]
      cases hrs : tx₁.resume with
      | false => simpa using TimedOut.unrecorded hrs
      | true =>
        cases hc : s₁.cutBack tx₁ f.truncate with
        | mk ok out =>
          by_cases hl : tx₁.initialOffset < (s₁.files tx₁.file).data.content.length
          · simpa [hl] using TimedOut.cut hrs hc
          · simpa [hl] using TimedOut.returned hrs

/-- The fault of the flush before the commit. -/
def PrecommitFault.landed : Option PrecommitFault → Option ℕ
  | some (.flush landed) => some landed
  | _ => none

/-- What the checks before the commit lead to; `s₁` and `tx₁` are the state and the transaction
    after the flush. -/
inductive Precommitted (s₁ : System) (c : Config) (tx₁ : UploadTransaction) (now : ℤ)
    (persist : Option PersistFault) : System → Prop
  | returned : Precommitted s₁ c tx₁ now persist (s₁.finish tx₁)
  | undone : tx₁.resume = false → Precommitted s₁ c tx₁ now persist (s₁.rollBack tx₁ false)
  | noSpace (truncate : Option System.TruncateFault) :
      Precommitted s₁ c tx₁ now persist (s₁.finishSpaceFailure tx₁ truncate)
  | late : tx₁.awaiting = false → Precommitted s₁ c tx₁ now persist (s₁.enter tx₁ .timedOut)
  | complete : (s₁.files tx₁.file).data.content.length = tx₁.request.uploadLength →
      Precommitted s₁ c tx₁ now persist (s₁.enter tx₁ .replaying)
  | short {ok : Bool} {s' : System} {tx' : UploadTransaction} : tx₁.awaiting = false →
      (s₁.files tx₁.file).data.content.length < tx₁.request.uploadLength →
      s₁.persistCheckpoint c now tx₁ (some tx₁.targetRevision)
        (s₁.files tx₁.file).data.content.length false persist = (ok, s', tx') →
      Precommitted s₁ c tx₁ now persist (s'.finish tx')
  | long : tx₁.request.uploadLength < (s₁.files tx₁.file).data.content.length →
      Precommitted s₁ c tx₁ now persist (s₁.rollBack tx₁ false)

theorem checkLength_precommitted (s₁ : System) (c : Config) (tx₁ : UploadTransaction) (now : ℤ)
    (persist : Option PersistFault) :
    Precommitted s₁ c tx₁ now persist (s₁.checkLength c tx₁ now persist) := by
  unfold System.checkLength
  by_cases hc : (s₁.files tx₁.file).data.content.length = tx₁.request.uploadLength
  · rw [if_pos hc]
    exact .complete hc
  rw [if_neg hc]
  by_cases haw : tx₁.awaiting = true
  · rw [if_pos haw]
    exact .returned
  rw [if_neg haw]
  by_cases hs : (s₁.files tx₁.file).data.content.length < tx₁.request.uploadLength
  · rw [if_pos hs]
    exact .short (by simpa using haw) hs rfl
  · rw [if_neg hs]
    exact .long (by omega)

theorem precommit_precommitted (s : System) (c : Config) (tx : UploadTransaction)
    (f : Option PrecommitFault) (now : ℤ) (persist : Option PersistFault) :
    ∃ s₁ tx₁, Flushed s tx s₁ tx₁ ∧
      Precommitted s₁ c tx₁ now persist (s.precommit c tx f now persist) := by
  refine ⟨_, _, flush_flushed s tx (PrecommitFault.landed f), ?_⟩
  cases f with
  | none => exact checkLength_precommitted _ c _ now persist
  | some f =>
    cases f with
    | flush ld =>
      simp only [System.precommit, PrecommitFault.landed]
      split_ifs with hr
      · exact .returned
      · simp only [Bool.or_eq_true, not_or, Bool.not_eq_true] at hr
        exact .undone hr.2
    | space truncate => exact .noSpace truncate
    | deadline =>
      simp only [System.precommit, PrecommitFault.landed]
      split_ifs with haw
      · exact .returned
      · rw [Bool.not_eq_true] at haw
        exact .late haw
    | metadata => exact .returned

/-! ## Restart -/

theorem restart_eq_some (h : s.restart c now = some s') :
    ∃ sessions, recoverUploadSessions c.limits now s.sessions = .ok sessions ∧
      System.stageLayoutValid { s with sessions := sessions } c = true ∧
      s' = { s with sessions := sessions, up := true } := by
  unfold System.restart at h
  split at h
  · cases h
  · rename_i sessions hr
    simp only [Option.ite_none_right_eq_some, Option.some.injEq] at h
    exact ⟨sessions, hr, h.1, h.2.symm⟩

end DufsRam.Upload
