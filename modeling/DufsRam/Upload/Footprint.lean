import DufsRam.Upload.Linked

/-!
# What the steps of an upload can touch

What a request does to the staging path and to the rows of the sessions, whatever else goes
on: it unlinks or renames the stage, it removes rows, and it saves its own session. A session
that is not terminal is saved only if the staging path names the open file, and records it.

The bytes received, the publications and the metadata that a replay has put on a file change
in five places: a new stage, the beginning of a transfer, a chunk, a replay and a commit.
Everything else leaves them as they are.

Results:
* `transactionStep_stepped`: both, for every step of a request that has an open stage.
* `prepareStep_footprint`: a request without one touches no row, and only creates the stage.
* `step_frame`: the steps other than these five.
-/

namespace DufsRam.Upload

open StateStore RootedFs

/-! ## What was received, published and replayed -/

/-- Nothing was received, published or replayed. -/
structure Frame (s s' : System) : Prop where
  received : s'.received = s.received
  published : s'.published = s.published
  applied : ∀ i, (s'.files i).applied = (s.files i).applied

namespace Frame

variable {s s₁ s₂ : System} {tx tx₁ : UploadTransaction}

theorem refl (s : System) : Frame s s := ⟨rfl, rfl, fun _ => rfl⟩

theorem trans (h : Frame s s₁) (h' : Frame s₁ s₂) : Frame s s₂ :=
  ⟨h'.received.trans h.received, h'.published.trans h.published,
    fun i => (h'.applied i).trans (h.applied i)⟩

theorem updateData (s : System) (i : FileIdentity) (f : DurableFile UInt8 → DurableFile UInt8) :
    Frame s (s.updateData i f) := by
  refine ⟨rfl, rfl, fun j => ?_⟩
  by_cases hj : j = i
  · subst hj
    simp [System.updateData]
  · simp [System.updateData, Function.update_of_ne hj]

theorem dataOnly (h : DataOnly s tx s₁ tx₁) : Frame s s₁ := by
  obtain ⟨-, f, rfl⟩ := h
  exact .updateData s tx.file f

theorem persisted {now : ℤ} {key : UploadSessionKey} {p : StoredUploadSession Path}
    {ok : Bool} (h : Persisted s now key p ok s₁) : Frame s s₁ := by
  rw [h.frame]
  exact ⟨rfl, rfl, fun _ => rfl⟩

end Frame

/-! ## The stage and the rows -/

/-- What a request may do to the rows. -/
inductive RowsChange (c : Config) (s : System) (tx : UploadTransaction) :
    UploadSessions Path → Prop
  | fewer {t : UploadSessions Path} :
      (∀ key row, t.get key = some row → s.sessions.get key = some row) → RowsChange c s tx t
  | saved {now : ℤ} {proposed : StoredUploadSession Path} {expiresAt : ℤ} :
      Admitted (swept s.sessions now) (c.key tx.request.owner) proposed →
      proposed.stagePath = c.stagePath →
      (proposed.state.isTerminal = false →
        s.stage = some tx.file ∧ proposed.stageIdentity = some tx.file) →
      RowsChange c s tx ((swept s.sessions now).put (c.key tx.request.owner) ⟨proposed, expiresAt⟩)

variable {c : Config} {s : System}

/-- Only the rows, the stage, the file and the request of the transaction matter. -/
theorem RowsChange.congr {s₁ : System} {tx tx₁ : UploadTransaction} {t : UploadSessions Path}
    (h : RowsChange c s₁ tx₁ t) (hs : s₁.sessions = s.sessions) (hst : s₁.stage = s.stage)
    (hf : tx₁.file = tx.file) (hr : tx₁.request = tx.request) : RowsChange c s tx t := by
  cases h with
  | fewer hrw =>
    rw [hs] at hrw
    exact .fewer hrw
  | saved ha hp hid =>
    rw [hs, hr] at ha
    rw [hst, hf] at hid
    rw [hs, hr]
    exact .saved ha hp hid

/-- A row of the stage after the change was there before, or is the one of the request: terminal,
    or a record of the open file, which is then the stage. -/
theorem RowsChange.get {tx : UploadTransaction} {t : UploadSessions Path} (h : RowsChange c s tx t)
    {key : UploadSessionKey} {row : UploadRow Path} (hg : t.get key = some row) :
    s.sessions.get key = some row ∨ key = c.key tx.request.owner ∧
      (row.session.state.isTerminal = false →
        s.stage = some tx.file ∧ row.session.stageIdentity = some tx.file ∧
          ∀ key' row', s.sessions.get key' = some row' →
            row'.session.stagePath = c.stagePath → row'.session.state.isTerminal = false →
            key' = key) := by
  cases h with
  | fewer hr => exact .inl (hr key row hg)
  | saved ha hp hid =>
    obtain ⟨rfl, rfl⟩ | ⟨-, hold⟩ := Table.get_put_cases hg
    · refine .inr ⟨rfl, fun hl => ⟨(hid hl).1, (hid hl).2, ?_⟩⟩
      intro key' row' hg' hp' hl'
      exact ha.alone hl key' row' (get_swept hg' hl') (hp'.trans hp.symm) hl'
    · exact .inl (get_of_get_swept hold)

/-- What a function of a request has touched. -/
structure Touched (c : Config) (s : System) (tx : UploadTransaction) (s₁ : System)
    (tx₁ : UploadTransaction) : Prop where
  stage : s₁.stage = s.stage ∨ s₁.stage = none
  rows : RowsChange c s tx s₁.sessions
  file : tx₁.file = tx.file
  request : tx₁.request = tx.request

/-- What a step of a request has touched. The request goes on with the same file, or ends. -/
structure Footprint (c : Config) (s : System) (tx : UploadTransaction) (s' : System) : Prop where
  stage : s'.stage = s.stage ∨ s'.stage = none
  rows : RowsChange c s tx s'.sessions
  task : ∀ task ∈ s'.task, ∃ tx' phase, task = .transaction tx' phase ∧ tx'.file = tx.file ∧
    tx'.request = tx.request

/-- What a function of a request has touched; if it is `framed`, nothing was received, published or
    replayed. -/
structure Walked (framed : Prop) (c : Config) (s : System) (tx : UploadTransaction) (s₁ : System)
    (tx₁ : UploadTransaction) : Prop extends Touched c s tx s₁ tx₁ where
  frame : framed → Frame s s₁

/-- The same for a step of a request. -/
structure Stepped (framed : Prop) (c : Config) (s : System) (tx : UploadTransaction)
    (s' : System) : Prop extends Footprint c s tx s' where
  frame : framed → Frame s s'

variable {framed : Prop}

theorem Stepped.mono {framed' : Prop} {tx : UploadTransaction} {s' : System}
    (h : Stepped framed c s tx s') (hi : framed' → framed) : Stepped framed' c s tx s' :=
  ⟨h.toFootprint, fun h' => h.frame (hi h')⟩

namespace Walked

variable {c : Config} {s s₁ s₂ : System} {tx tx₁ tx₂ : UploadTransaction}

theorem refl (framed : Prop) (c : Config) (s : System) (tx : UploadTransaction) :
    Walked framed c s tx s tx :=
  ⟨⟨.inl rfl, .fewer fun _ _ h => h, rfl, rfl⟩, fun _ => .refl s⟩

/-- A function that leaves the rows alone. -/
theorem noRow (h : s₁.stage = s.stage ∨ s₁.stage = none) (hs : s₁.sessions = s.sessions)
    (hf : framed → Frame s s₁) : Walked framed c s tx s₁ tx :=
  ⟨⟨h, .fewer fun _ _ hg => by rw [← hs]; exact hg, rfl, rfl⟩, hf⟩

/-- What works on the data of the file touches neither the stage nor the rows. -/
theorem after (hd : DataOnly s tx s₁ tx₁) (h : Walked framed c s₁ tx₁ s₂ tx₂) :
    Walked framed c s tx s₂ tx₂ := by
  have hfr := Frame.dataOnly hd
  obtain ⟨⟨cur, qd, rfl⟩, f, rfl⟩ := hd
  exact ⟨⟨h.stage, h.rows.congr rfl rfl rfl rfl, h.file, h.request⟩,
    fun hf => hfr.trans (h.frame hf)⟩

theorem dataOnly (hd : DataOnly s tx s₁ tx₁) : Walked framed c s tx s₁ tx₁ :=
  .after hd (.refl framed c s₁ tx₁)

/-- The request and its task do not belong to the frame. -/
theorem framed_of_eq {s' : System} (h : Walked framed c s tx s₁ tx₁)
    (hr : s'.received = s₁.received) (hp : s'.published = s₁.published)
    (hfl : s'.files = s₁.files) (hf : framed) : Frame s s' :=
  (h.frame hf).trans ⟨hr, hp, fun i => by rw [hfl]⟩

theorem enter (h : Walked framed c s tx s₁ tx₁) (phase : Phase) :
    Stepped framed c s tx (s₁.enter tx₁ phase) := by
  refine ⟨⟨h.stage, h.rows, ?_⟩, h.framed_of_eq rfl rfl rfl⟩
  intro task ht
  exact ⟨tx₁, phase, (Option.some.inj ht).symm, h.file, h.request⟩

theorem finish (h : Walked framed c s tx s₁ tx₁) : Stepped framed c s tx (s₁.finish tx₁) := by
  refine ⟨⟨h.stage, h.rows, ?_⟩, h.framed_of_eq rfl rfl rfl⟩
  intro task ht
  cases ht

theorem rollBack (h : Walked framed c s tx s₁ tx₁) (rej : Bool) :
    Stepped framed c s tx (s₁.rollBack tx₁ rej) := by
  refine ⟨⟨h.stage, h.rows, ?_⟩, h.framed_of_eq rfl rfl rfl⟩
  intro task ht
  exact ⟨_, _, (Option.some.inj ht).symm, h.file, h.request⟩

theorem afterReset (h : Walked framed c s tx s₁ tx₁) (rej : Bool) :
    Stepped framed c s tx (s₁.afterReset tx₁ rej) := by
  cases rej with
  | true => exact h.enter _
  | false => exact h.finish

end Walked

/-! ## Records -/

section Records

variable {c : Config} {s s' : System} {now : ℤ} {tx tx' : UploadTransaction}
  {revision : Option (Option Digest)} {durableOffset : ℕ} {fault : Option PersistFault} {ok : Bool}

theorem Persisted.walked {p : StoredUploadSession Path}
    (h : Persisted s now (c.key tx.request.owner) p ok s')
    (hp : p.stagePath = c.stagePath)
    (hid : p.state.isTerminal = false →
      s.stage = some tx.file ∧ p.stageIdentity = some tx.file) :
    Walked framed c s tx s' tx := by
  have hf := Frame.persisted h
  cases h with
  | refused => exact .refl framed c s tx
  | swept =>
    exact ⟨⟨.inl rfl, .fewer fun _ _ hg => get_of_get_swept hg, rfl, rfl⟩, fun _ => hf⟩
  | stored ok exp ha =>
    exact ⟨⟨.inl rfl, .saved ha hp hid, rfl, rfl⟩, fun _ => hf⟩

theorem persistStage_walked {st : StoredUploadState} {sp : Bool}
    (h : s.persistStage c now tx revision durableOffset st sp fault = (ok, s', tx')) :
    Walked framed c s tx s' tx' := by
  obtain ⟨-, hfl⟩ | ⟨rfl, hs, -, rev, -, hpd⟩ :=
    persistStage_cases s c now tx revision durableOffset st sp fault h
  · exact .dataOnly hfl.dataOnly
  have hw : Walked framed c (s.syncedStage tx sp) tx s' tx :=
    hpd.walked rfl fun _ => ⟨hs, rfl⟩
  have hsy : Flushed s tx _ _ := .synced
  have hd := Frame.dataOnly hsy.dataOnly
  have hfr : Frame s (s.syncedStage tx sp) :=
    ⟨hd.received, hd.published, hd.applied⟩
  exact ⟨⟨hw.stage, hw.rows.congr rfl rfl rfl rfl, rfl, rfl⟩, fun hf => hfr.trans (hw.frame hf)⟩

theorem persistCheckpoint_walked {ini : Bool}
    (h : s.persistCheckpoint c now tx revision durableOffset ini fault = (ok, s', tx')) :
    Walked framed c s tx s' tx' := by
  unfold System.persistCheckpoint at h
  split_ifs at h
  · exact persistStage_walked h
  · cases h
    exact .refl framed c s tx

theorem persistTerminal_walked (s : System) (c : Config) (now : ℤ) (tx : UploadTransaction)
    (durableOffset : ℕ) {st : StoredUploadState} (ht : st.isTerminal = true)
    (fault : Option StoreFault) :
    Walked framed c s tx (s.persistTerminal c now tx durableOffset st fault) tx := by
  have hpd := persistState_persisted s c now (c.key tx.request.owner)
    tx.request.uploadLength none durableOffset st none fault
  refine hpd.walked rfl fun hl => ?_
  rw [show (s.proposedSession c _ _ none durableOffset st none).state = st from rfl, ht] at hl
  cases hl

end Records

/-! ## Create-only sessions -/

/-- A session whose stage a `NoReplace` request may publish. -/
def isCreateOnly (session : StoredUploadSession Path) : Bool :=
  decide (session.state = .running) ||
    (decide (session.state = .awaitingConfirmation) && session.targetRevision.isNone)

/-- The phases up to the replay. -/
def Phase.beforeReplay : Phase → Bool
  | .initialCheckpoint | .truncating | .rebinding | .reserving | .transferring _
  | .transferFailed _ | .timedOut | .transferred | .replaying => true
  | .starting | .committing | .recording _ | .discarding _ | .resetting _ | .removing _ _
  | .rejecting => false

/-- Nothing was replayed or published; the stage, if there is one, is the old one; and a new
    session whose stage may be published names a file without replayed metadata. -/
structure Passes (c : Config) (file : FileIdentity) (s s' : System) : Prop where
  applied : ∀ i, (s'.files i).applied = (s.files i).applied
  published : s'.published = s.published
  stage : ∀ i, s'.stage = some i → s.stage = some i
  rows : ∀ key session, Owns c s'.sessions key session → isCreateOnly session = true →
    Owns c s.sessions key session ∨
      (session.stageIdentity = some file ∧ (s.files file).applied = [])

namespace Passes

variable {c : Config} {file : FileIdentity} {s s₁ s₂ : System}

theorem refl (s : System) : Passes c file s s :=
  ⟨fun _ => rfl, rfl, fun _ h => h, fun _ _ ho _ => Or.inl ho⟩

theorem trans (h : Passes c file s s₁) (h' : Passes c file s₁ s₂) : Passes c file s s₂ where
  applied i := (h'.applied i).trans (h.applied i)
  published := h'.published.trans h.published
  stage i hi := h.stage i (h'.stage i hi)
  rows key session ho hcr := by
    obtain ho₁ | ⟨hid, ha⟩ := h'.rows key session ho hcr
    · exact h.rows key session ho₁ hcr
    · rw [h.applied] at ha
      exact Or.inr ⟨hid, ha⟩

/-- A step that stores no session. -/
theorem of_frame (h : Frame s s₁) (hs : ∀ i, s₁.stage = some i → s.stage = some i)
    (hr : ∀ key sess, Owns c s₁.sessions key sess → Owns c s.sessions key sess) :
    Passes c file s s₁ :=
  ⟨h.applied, h.published, hs, fun key sess ho _ => Or.inl (hr key sess ho)⟩

theorem dataOnly {tx tx₁ : UploadTransaction} (h : DataOnly s tx s₁ tx₁) : Passes c file s s₁ := by
  obtain ⟨-, f, rfl⟩ := h
  exact .of_frame (.updateData s tx.file f) (fun _ h => h) fun _ _ ho => ho

end Passes

/-- The same request with the same file. -/
structure Same (tx tx' : UploadTransaction) : Prop where
  preparation : tx'.toPreparation = tx.toPreparation
  file : tx'.file = tx.file

namespace Same

variable {tx tx' tx₁ : UploadTransaction}

theorem refl (tx : UploadTransaction) : Same tx tx := ⟨rfl, rfl⟩

theorem trans (h : Same tx tx') (h' : Same tx' tx₁) : Same tx tx₁ :=
  ⟨h'.preparation.trans h.preparation, h'.file.trans h.file⟩

end Same

theorem DataOnly.same {s₁ : System} {tx₁ : UploadTransaction} (h : DataOnly s tx s₁ tx₁) :
    Same tx tx₁ := by
  obtain ⟨⟨cur, qd, rfl⟩, -⟩ := h
  exact ⟨rfl, rfl⟩

/-- A step without a replay, after which the request has ended or goes on with the same
    file. -/
structure Continues (c : Config) (tx : UploadTransaction) (phase : Phase) (s s' : System) :
    Prop where
  passes : Passes c tx.file s s'
  task : ∀ task ∈ s'.task, ∃ tx' phase', task = .transaction tx' phase' ∧ Same tx tx' ∧
    (phase'.beforeReplay = true → phase.beforeReplay = true)

namespace Continues

variable {c : Config} {tx tx' : UploadTransaction} {phase : Phase} {s s₁ : System}

theorem enter (h : Passes c tx.file s s₁) (hs : Same tx tx') {phase' : Phase}
    (hp : phase'.beforeReplay = true → phase.beforeReplay = true) :
    Continues c tx phase s (s₁.enter tx' phase') := by
  refine ⟨⟨h.applied, h.published, h.stage, h.rows⟩, fun task ht => ?_⟩
  cases ht
  exact ⟨tx', phase', rfl, hs, hp⟩

theorem finish (h : Passes c tx.file s s₁) : Continues c tx phase s (s₁.finish tx') :=
  ⟨⟨h.applied, h.published, h.stage, h.rows⟩, fun _ ht => by cases ht⟩

theorem rollBack (h : Passes c tx.file s s₁) (hs : Same tx tx') {rej : Bool} :
    Continues c tx phase s (s₁.rollBack tx' rej) := by
  have hd : Passes c tx.file s (s₁.dropFile tx') :=
    ⟨h.applied, h.published, h.stage, h.rows⟩
  have hs' : Same tx { tx' with queued := [] } := ⟨hs.preparation, hs.file⟩
  refine .enter hd hs' fun h => ?_
  cases h

theorem afterReset (h : Passes c tx.file s s₁) {rej : Bool} :
    Continues c tx phase s (s₁.afterReset tx rej) := by
  cases rej with
  | true => exact .enter h (.refl tx) (by simp [Phase.beforeReplay])
  | false => exact .finish h

end Continues

/-- Only a clean file is recorded for the body of the transaction. -/
def Clean (c : Config) (s : System) (tx : UploadTransaction) : Prop :=
  ∀ now durableOffset targetRevision, Admitted (swept s.sessions now) (c.key tx.request.owner)
    (c.sessionOf tx .running durableOffset targetRevision) → (s.files tx.file).applied = []

/-- What a function of a request has touched up to the replay. -/
structure Went (framed : Prop) (c : Config) (s : System) (tx : UploadTransaction) (s₁ : System)
    (tx₁ : UploadTransaction) : Prop extends Walked framed c s tx s₁ tx₁ where
  same : Same tx tx₁
  passes : Clean c s tx → Passes c tx.file s s₁

/-- What a step of a request does up to the replay. -/
structure Moved (framed : Prop) (c : Config) (s : System) (tx : UploadTransaction) (phase : Phase)
    (s' : System) : Prop extends Stepped framed c s tx s' where
  continues : Clean c s tx → Continues c tx phase s s'

section Moves

variable {s s' s₁ : System} {tx tx₁ : UploadTransaction} {phase phase' : Phase}

theorem Went.refl (framed : Prop) (c : Config) (s : System) (tx : UploadTransaction) :
    Went framed c s tx s tx :=
  ⟨.refl framed c s tx, .refl tx, fun _ => .refl s⟩

theorem Went.dataOnly (h : DataOnly s tx s₁ tx₁) : Went framed c s tx s₁ tx₁ :=
  ⟨.dataOnly h, h.same, fun _ => .dataOnly h⟩

theorem Went.enter (h : Went framed c s tx s₁ tx₁)
    (hp : phase'.beforeReplay = true → phase.beforeReplay = true) :
    Moved framed c s tx phase (s₁.enter tx₁ phase') :=
  ⟨h.toWalked.enter phase', fun hc => .enter (h.passes hc) h.same hp⟩

theorem Went.finish (h : Went framed c s tx s₁ tx₁) : Moved framed c s tx phase (s₁.finish tx₁) :=
  ⟨h.toWalked.finish, fun hc => .finish (h.passes hc)⟩

theorem Went.rollBack (h : Went framed c s tx s₁ tx₁) (rej : Bool) :
    Moved framed c s tx phase (s₁.rollBack tx₁ rej) :=
  ⟨h.toWalked.rollBack rej, fun hc => .rollBack (h.passes hc) h.same⟩

theorem Stepped.after (hd : DataOnly s tx s₁ tx₁) (h : Stepped framed c s₁ tx₁ s') :
    Stepped framed c s tx s' := by
  have hfr := Frame.dataOnly hd
  obtain ⟨⟨cur, qd, rfl⟩, f, rfl⟩ := hd
  exact ⟨⟨h.stage, h.rows.congr rfl rfl rfl rfl, h.task⟩, fun hf => hfr.trans (h.frame hf)⟩

theorem Moved.mono {framed' : Prop} (h : Moved framed c s tx phase s') (hi : framed' → framed) :
    Moved framed' c s tx phase s' :=
  ⟨h.toStepped.mono hi, h.continues⟩

theorem Moved.after (hd : DataOnly s tx s₁ tx₁) (h : Moved framed c s₁ tx₁ phase s') :
    Moved framed c s tx phase s' := by
  refine ⟨.after hd h.toStepped, fun hc => ?_⟩
  have hp : Passes c tx.file s s₁ := .dataOnly hd
  have hs := hd.same
  obtain ⟨⟨cur, qd, rfl⟩, f, rfl⟩ := hd
  have hc₁ : Clean c _ _ := fun now durableOffset rev ha =>
    (hp.applied _).trans (hc now durableOffset rev ha)
  obtain ⟨hp₁, ht⟩ := h.continues hc₁
  refine ⟨hp.trans hp₁, fun task hm => ?_⟩
  obtain ⟨tx', phase', rfl, hs', hph⟩ := ht task hm
  exact ⟨tx', phase', rfl, hs.trans hs', hph⟩

/-- A step that has noted what was received first. -/
theorem Moved.received {key : UploadSessionKey} {b : List UInt8}
    (h : Moved True c (s.setReceived key b) tx phase s') : Moved False c s tx phase s' := by
  have hr : Passes c tx.file s (s.setReceived key b) :=
    ⟨fun _ => rfl, rfl, fun _ h => h, fun _ _ ho _ => Or.inl ho⟩
  exact ⟨⟨⟨h.stage, h.rows.congr rfl rfl rfl rfl, h.task⟩, False.elim⟩, fun hc =>
    ⟨hr.trans (h.continues hc).passes, (h.continues hc).task⟩⟩

end Moves

section Checkpoints

variable {s s' : System} {now : ℤ} {tx tx' : UploadTransaction}
  {revision : Option (Option Digest)} {durableOffset : ℕ} {fault : Option PersistFault}

/-- A record that names the stage, if a create-only session is stored for clean files only. -/
theorem persistStage_passes {st : StoredUploadState} {sp : Bool} {ok : Bool}
    (h : s.persistStage c now tx revision durableOffset st sp fault = (ok, s', tx'))
    (hc : ∀ rev, (∀ r, revision = some r → rev = r) →
      Admitted (swept s.sessions now) (c.key tx.request.owner)
        (c.sessionOf tx st durableOffset rev) →
      isCreateOnly (c.sessionOf tx st durableOffset rev) = true →
      (s.files tx.file).applied = []) : Passes c tx.file s s' := by
  have hf := (persistStage_walked h).frame trivial
  obtain ⟨-, hfl⟩ | ⟨-, -, -, rev, hr, hpd⟩ :=
    persistStage_cases s c now tx revision durableOffset st sp fault h
  · exact .dataOnly hfl.dataOnly
  cases hpd with
  | refused => exact .of_frame hf (fun _ h => h) fun _ _ ho => ho
  | swept => exact .of_frame hf (fun _ h => h) fun _ _ ho => ho.of_swept
  | stored _ exp ha =>
    refine ⟨hf.applied, hf.published, fun _ h => h, fun key sess ho hcr => ?_⟩
    obtain ⟨-, rfl⟩ | ⟨-, hold⟩ := ho.of_put
    · exact Or.inr ⟨rfl, hc rev hr ha hcr⟩
    · exact Or.inl hold.of_swept

theorem persistCheckpoint_went {ini : Bool} {ok : Bool}
    (h : s.persistCheckpoint c now tx revision durableOffset ini fault = (ok, s', tx')) :
    Went framed c s tx s' tx' := by
  refine ⟨persistCheckpoint_walked h, ?_, fun hc => ?_⟩
  · obtain ⟨cur, qd, rfl⟩ := persistCheckpoint_request h
    exact ⟨rfl, rfl⟩
  unfold System.persistCheckpoint at h
  split_ifs at h
  · exact persistStage_passes h fun rev _ ha _ => hc _ _ _ ha
  · cases h
    exact .refl s

end Checkpoints

/-! ## Steps with an open stage -/

section Steps

variable {c : Config} {s s' : System} {tx : UploadTransaction}

variable {phase : Phase}

theorem finishSpaceFailure_moved (c : Config) (s : System) (tx : UploadTransaction)
    (fault : Option System.TruncateFault) :
    Moved framed c s tx phase (s.finishSpaceFailure tx fault) := by
  unfold System.finishSpaceFailure
  split_ifs
  · exact (Went.refl framed c s tx).finish
  · exact (Went.dataOnly (cutBack_dataOnly rfl)).finish
  · exact (Went.refl framed c s tx).rollBack false

theorem openStep_moved {e : PrepareEvent} (h : s.openStep c tx phase e = some s') :
    Moved (e ≠ .begin) c s tx phase s' := by
  have hs := Went.refl (e ≠ .begin) c s tx
  unfold System.openStep at h
  split at h
  · cases h; exact hs.enter nofun
  · cases h; exact hs.enter fun _ => rfl
  · split at h
    · next hp => cases h; exact (persistCheckpoint_went hp).enter fun _ => rfl
    · next hp => cases h; exact (persistCheckpoint_went hp).enter nofun
  · cases h; exact hs.finish
  · split_ifs at h
    · cases h; exact hs.finish
    · cases h
      have hc : DataOnly s tx (s.updateData tx.file fun f => f.setLen 0 tx.initialOffset) tx :=
        ⟨⟨_, _, rfl⟩, _, rfl⟩
      exact (Went.dataOnly hc).enter fun _ => rfl
    · cases h; exact hs.enter fun _ => rfl
  · cases h; exact hs.finish
  · split at h
    · next hp => cases h; exact (persistCheckpoint_went hp).enter fun _ => rfl
    · next hp => cases h; exact (persistCheckpoint_went hp).finish
  · split_ifs at h
    cases h; exact hs.finish
  · cases h; exact hs.enter fun _ => rfl
  · cases h; exact finishSpaceFailure_moved c s tx _
  · cases h
    have hb := Went.refl True c (s.setReceived (c.key tx.request.owner)
      ((s.received (c.key tx.request.owner)).take tx.initialOffset)) tx
    exact (hb.enter fun _ => rfl).received.mono (absurd rfl)
  · cases h

theorem writeUploadChunk_moved (c : Config) (s : System) (tx : UploadTransaction)
    (rem : ℕ) (acc : List UInt8) (excess : Bool) (fault : Option ChunkFault)
    (hp : phase.beforeReplay = true) :
    Moved framed c s tx phase (s.writeUploadChunk tx rem acc excess fault) := by
  have hs := Went.refl framed c s tx
  have hl : ∀ queued, Went framed c s tx (s.land tx tx.queued.length).1
      { (s.land tx tx.queued.length).2 with queued := queued } :=
    fun queued => .dataOnly ((land_dataOnly s tx _).queued queued)
  unfold System.writeUploadChunk
  split
  · exact hs.enter fun _ => hp
  · exact hs.enter fun _ => hp
  · exact hs.enter fun _ => hp
  · next ld =>
    have hq : DataOnly s tx s { tx with queued := tx.queued ++ acc } :=
      ⟨⟨_, _, rfl⟩, id, by simp [System.updateData]⟩
    have hln : Went framed c s { tx with queued := tx.queued ++ acc } _ _ :=
      .dataOnly ((land_dataOnly s _ ld).queued [])
    exact .after hq (hln.enter fun _ => hp)
  · exact (hl acc).enter fun _ => hp
  · exact (hl acc).enter fun _ => hp
  · exact (hl acc).enter fun _ => hp

theorem transferStep_moved {e : TransferEvent} (h : s.transferStep c tx phase e = some s') :
    Moved (∀ data fault, e ≠ .chunk data fault) c s tx phase s' := by
  have hs := Went.refl (∀ data fault, e ≠ .chunk data fault) c s tx
  unfold System.transferStep at h
  split at h
  · cases h; exact (Went.dataOnly (land_dataOnly s tx _)).enter fun _ => rfl
  · cases h; exact (Went.dataOnly (land_dataOnly s tx _)).enter fun _ => rfl
  · cases h
    next rem data fault =>
    have hr := Went.refl True c (s.setReceived (c.key tx.request.owner)
      (s.received (c.key tx.request.owner) ++ data)) tx
    refine Moved.mono ?_ fun hne => hne data fault rfl
    unfold System.receiveChunk
    simp only
    split_ifs
    · exact (hr.enter fun _ => rfl).received
    · exact (hr.enter fun _ => rfl).received
    · exact .received (writeUploadChunk_moved c _ tx rem _ _ fault rfl)
  · split at h
    · cases h; exact hs.enter fun _ => rfl
    · cases h; exact hs.enter fun _ => rfl
    · cases h; exact hs.enter fun _ => rfl
    · cases h
    · cases h
  · cases h; exact hs.enter fun _ => rfl
  · cases h

theorem checkpointPartial_moved (s : System) (c : Config) (tx : UploadTransaction)
    (size : ℕ) (f : SettleFaults) :
    Moved framed c s tx phase (s.checkpointPartial c tx size f) := by
  unfold System.checkpointPartial
  split_ifs
  · cases hp : s.persistCheckpoint c f.now tx (some tx.targetRevision) size false f.persist with
    | mk ok out => exact (persistCheckpoint_went hp).finish
  · exact (Went.refl framed c s tx).finish
  · exact (Went.refl framed c s tx).rollBack false

theorem settleFailure_moved (s : System) (c : Config) (tx : UploadTransaction)
    (err : UploadTransferError) (f : SettleFaults) (hp : phase.beforeReplay = true) :
    Moved framed c s tx phase (s.settleFailure c tx err f) := by
  have hs := Went.refl framed c s tx
  have hst := settleFailure_settled s c tx err f
  generalize s.settleFailure c tx err f = s' at hst
  cases hst with
  | confirmation | unreadable => exact hs.finish
  | late => exact hs.enter fun _ => hp
  | cut hc => exact (Went.dataOnly (cutBack_dataOnly hc)).finish
  | undone => exact hs.rollBack false
  | cutUndone hc => exact (Went.dataOnly (cutBack_dataOnly hc)).rollBack false
  | checkpoint => exact checkpointPartial_moved s c tx _ f

theorem finishTimedOutUpload_moved (s : System) (c : Config) (tx : UploadTransaction)
    (phase : Phase) (flush : Option ℕ) (f : SettleFaults) :
    Moved framed c s tx phase (s.finishTimedOutUpload c tx flush f) := by
  obtain ⟨s₁, tx₁, hfl, hr⟩ := finishTimedOutUpload_timedOut s c tx flush f
  have hf := hfl.dataOnly
  generalize s.finishTimedOutUpload c tx flush f = s' at hr
  have hs := Went.refl framed c s₁ tx₁
  refine .after hf ?_
  cases hr with
  | returned => exact hs.finish
  | unrecorded => exact hs.enter nofun
  | unreadable => exact hs.rollBack false
  | checkpoint _ hp =>
    have hst : Went framed c s₁ tx₁ _ _ := persistCheckpoint_went hp
    split_ifs
    · exact hst.finish
    · exact hst.enter nofun
  | cut _ hc => exact (Went.dataOnly (cutBack_dataOnly hc)).finish

theorem precommit_moved (s : System) (c : Config) (tx : UploadTransaction)
    (fault : Option PrecommitFault) (now : ℤ) (persist : Option PersistFault)
    (hp : phase.beforeReplay = true) :
    Moved framed c s tx phase (s.precommit c tx fault now persist) := by
  obtain ⟨s₁, tx₁, hfl, hr⟩ := precommit_precommitted s c tx fault now persist
  have hf := hfl.dataOnly
  generalize s.precommit c tx fault now persist = s' at hr
  have hs := Went.refl framed c s₁ tx₁
  refine .after hf ?_
  cases hr with
  | returned => exact hs.finish
  | undone | long => exact hs.rollBack false
  | noSpace truncate => exact finishSpaceFailure_moved c s₁ tx₁ truncate
  | late | complete => exact hs.enter fun _ => hp
  | short _ _ hpr => exact (persistCheckpoint_went hpr).finish

theorem replay_stepped (s : System) (c : Config) (tx : UploadTransaction)
    (r : ReplayResult) : Stepped False c s tx (s.replay tx r) := by
  have hs := Walked.refl False c s tx
  have hr : ∀ md, Walked False c s tx (s.recordReplay tx md) tx :=
    fun md => .noRow (.inl rfl) rfl False.elim
  unfold System.replay
  split
  · exact hs.enter _
  · exact (hr _).enter _
  next md chg _ =>
  cases chg with
  | true =>
    simp only [if_true]
    split_ifs
    · exact (hr md).finish
    · exact (hr md).rollBack false
  | false =>
    simp only [Bool.false_eq_true, if_false]
    split_ifs
    · exact hs.finish
    · exact hs.rollBack false

theorem startCommit_stepped (s : System) (c : Config) (tx : UploadTransaction) (spc : Bool)
    (now : ℤ) (fault : Option PersistFault) :
    Stepped framed c s tx (s.startCommit c tx spc now fault) := by
  have hs := Walked.refl framed c s tx
  unfold System.startCommit
  split_ifs
  · exact hs.finish
  · exact hs.rollBack false
  · split
    · next hp => exact (persistStage_walked hp).enter _
    · next hp => exact (persistStage_walked hp).rollBack false

theorem commit_stepped {spc : Bool} {r : CommitResult}
    (h : s.commit c tx spc r = some s') : Stepped False c s tx s' := by
  have ha : ∀ {s₁ : System}, Walked False c s tx s₁ tx → ∀ out,
      Stepped False c s tx (s₁.afterCommit tx out) := by
    intro s₁ hw out
    cases out with
    | published | rejected | publishedDurabilityUnknown => exact hw.enter _
    | notPublished e => exact hw.rollBack true
  unfold System.commit at h
  split_ifs at h
  · cases h
    exact (Walked.refl False c s tx).rollBack false
  split at h
  · cases h
    exact ha (.refl False c s tx) _
  next attributes xattrs _ =>
  cases h
  have hp : Walked False c s tx (s.publish c tx attributes xattrs) tx :=
    .noRow (.inr rfl) rfl False.elim
  exact ha hp _

theorem recordCommit_stepped (s : System) (c : Config) (tx : UploadTransaction)
    (rec : CommitRecord) (now : ℤ) (fault : Option PersistFault) :
    Stepped framed c s tx (s.recordCommit c tx rec now fault) := by
  cases rec with
  | committed | unknown => exact (persistTerminal_walked s c now tx _ rfl _).finish
  | awaitingConfirmation => exact (persistStage_walked (s := s) (c := c) rfl).finish

theorem commitStep_stepped {e : CommitEvent} (h : s.commitStep c tx phase e = some s') :
    Stepped ((∀ r, e ≠ .replay r) ∧ ∀ spc r, e ≠ .commit spc r) c s tx s' := by
  have timedOut : Phase.timedOut.beforeReplay = true := rfl
  unfold System.commitStep at h
  split at h
  · cases h; exact (settleFailure_moved s c tx _ _ timedOut).toStepped
  · cases h; exact (finishTimedOutUpload_moved s c tx .timedOut _ _).toStepped
  · cases h; exact (precommit_moved s c tx _ _ _ timedOut).toStepped
  · cases h; exact (replay_stepped s c tx _).mono fun hne => hne.1 _ rfl
  · cases h; exact startCommit_stepped s c tx _ _ _
  · exact (commit_stepped h).mono fun hne => hne.2 _ _ rfl
  · cases h; exact recordCommit_stepped s c tx _ _ _
  · cases h; exact (persistTerminal_walked s c _ tx _ rfl _).finish
  · cases h

theorem removeFileIfIdentity_walked (s : System) (c : Config) (tx : UploadTransaction)
    (key : UploadSessionKey) (want : FileIdentity) (fault : Option UnlinkFault) :
    Walked framed c s tx (s.removeFileIfIdentity key want fault).2 tx := by
  have hu : Walked framed c s tx (s.unlink key) tx :=
    .noRow (.inr rfl) rfl fun _ => ⟨rfl, rfl, fun _ => rfl⟩
  unfold System.removeFileIfIdentity
  split
  · exact .refl framed c s tx
  split_ifs
  · exact .refl framed c s tx
  split
  · exact hu
  · exact .refl framed c s tx
  · exact hu

theorem reset_stepped (s : System) (c : Config) (tx : UploadTransaction) (rej : Bool)
    (fault : Option RollbackFault) : Stepped framed c s tx (s.reset c tx rej fault) := by
  have hs := Walked.refl framed c s tx
  unfold System.reset
  split_ifs
  · exact hs.finish
  split
  · exact hs.afterReset rej
  split_ifs
  · exact hs.finish
  split
  · exact hs.enter _
  next fid _ =>
  have hr : Walked framed c s tx _ tx :=
    removeFileIfIdentity_walked s c tx (c.key tx.request.owner) fid (unlinkFault fault)
  split
  · next s₁ hs₁ =>
    rw [hs₁] at hr
    exact hr.finish
  · next s₁ hs₁ =>
    rw [hs₁] at hr
    exact hr.enter _

theorem rollbackStep_stepped {fault : Option RollbackFault}
    (h : s.rollbackStep c tx fault phase = some s') : Stepped framed c s tx s' := by
  have hs := Walked.refl framed c s tx
  have hf : ∀ key, Walked framed c s tx (s.forget key) tx :=
    fun key => ⟨⟨.inl rfl, .fewer fun _ _ hg => (Table.get_of_get_erase hg).2, rfl, rfl⟩,
      fun _ => ⟨rfl, rfl, fun _ => rfl⟩⟩
  unfold System.rollbackStep at h
  split at h
  · next rst =>
    have hr : Walked framed c s tx _ tx :=
      removeFileIfIdentity_walked s c tx (c.key tx.request.owner) tx.file (unlinkFault fault)
    cases h
    cases rst with
    | true => exact hr.rollBack false
    | false => exact hr.finish
  · cases h
    exact reset_stepped s c tx _ fault
  · cases h
    unfold System.removeRow
    simp only
    split
    · split_ifs
      · exact (hf _).finish
      · exact hs.finish
    · exact hs.finish
    · split_ifs
      · exact (hf _).afterReset _
      · exact hs.finish
  · cases h

/-- The events other than a new stage, the beginning of a transfer, a chunk, a replay and a
    commit. -/
def Event.IsFramed : Event → Prop
  | .prepare (.create _) | .prepare .begin | .transfer (.chunk _ _) | .commit (.replay _)
  | .commit (.commit _ _) => False
  | _ => True

/-- What a step of a request with an open stage touches. -/
theorem transactionStep_stepped {e : Event} (h : s.taskStep c (.transaction tx phase) e = some s') :
    Stepped e.IsFramed c s tx s' := by
  unfold System.taskStep at h
  split at h
  · refine (openStep_moved h).toStepped.mono ?_
    rintro hf rfl
    exact hf
  · refine (transferStep_moved h).toStepped.mono ?_
    rintro hf data fault rfl
    exact hf
  · refine (commitStep_stepped h).mono fun hf => ⟨?_, ?_⟩
    · rintro r rfl
      exact hf
    · rintro spc r rfl
      exact hf
  · exact rollbackStep_stepped h
  · cases h

end Steps

/-! ## Steps without an open stage -/

/-- The request has an open stage. -/
def Task.isOpen : Task → Bool
  | .transaction _ _ => true
  | _ => false

/-- What a step of a request without an open stage touches: it creates the stage, or nothing. It
    goes on without one, or with the new or the reopened one. -/
inductive PrepareFootprint (c : Config) (s : System) (task : Task) (e : PrepareEvent) :
    System → Prop
  | untouched {s' : System} : s'.stage = s.stage → s'.sessions = s.sessions →
      (∀ task' ∈ s'.task, task'.isOpen = false) →
      PrepareFootprint c s task e s'
  | created {p : Preparation} {file : FileIdentity} {s' : System} : task = .creating p →
      e = .create file → s.stage = none → s'.stage = some file → s'.sessions = s.sessions →
      s'.task = some (.transaction { p with file := file, cursor := 0, queued := [] }
        .initialCheckpoint) →
      PrepareFootprint c s task e s'
  | reopened {p : Preparation} {file : FileIdentity} {s' : System} {row : UploadRow Path} :
      task = .reopening p → s.sessions.get (c.key p.request.owner) = some row →
      row.session.stagePath = c.stagePath → row.session.state.isTerminal = false →
      row.session.stageIdentity = some file → s.stage = some file →
      s'.stage = s.stage → s'.sessions = s.sessions →
      s'.task = some (.transaction
        { p with file := file, cursor := p.request.initialOffset, queued := [] } .truncating) →
      PrepareFootprint c s task e s'

theorem afterChecks_isOpen {r : UploadRequest} {rec : Option UploadCheckpoint}
    {fid : ReplacementTargetIdentity} {md : Option PreservedFileMetadata} {task : Task}
    (h : Task.afterChecks r rec fid md = some task) : task.isOpen = false := by
  unfold Task.afterChecks at h
  split_ifs at h
  split at h
  · rw [← Option.some.inj h]; rfl
  · rw [← Option.some.inj h]; rfl

theorem prepareStep_footprint {s' : System} {task : Task} {e : PrepareEvent}
    (h : s.prepareStep c task e = some s') : PrepareFootprint c s task e s' := by
  have hn : ∀ next : Option Task, (∀ task', next = some task' → task'.isOpen = false) →
      PrepareFootprint c s task e { s with task := next } :=
    fun next hc => .untouched rfl rfl hc
  have he : PrepareFootprint c s task e { s with task := none } := by
    refine hn none fun task' ht' => ?_
    cases ht'
  unfold System.prepareStep at h
  split at h
  · cases h
  · rw [← Option.some.inj h]
    exact he
  · rw [← Option.some.inj h]
    refine hn _ fun task' ht' => ?_
    obtain ⟨rec, -, rfl⟩ := Option.map_eq_some_iff.mp ht'
    rfl
  · split at h
    · rw [← Option.some.inj h]
      refine hn _ fun task' ht' => ?_
      split_ifs at ht'
      exact afterChecks_isOpen ht'
    · rw [← Option.some.inj h]
      refine hn _ fun task' ht' => ?_
      split_ifs at ht'
      rw [← Option.some.inj ht']
      rfl
  · split at h
    · rw [← Option.some.inj h]
      exact he
    rw [← Option.some.inj h]
    refine hn _ fun task' ht' => ?_
    split_ifs at ht'
    exact afterChecks_isOpen ht'
  · next p file =>
    unfold System.createStage at h
    split_ifs at h with hsm hl
    · rw [← Option.some.inj h]
      exact he
    · rw [← Option.some.inj h]
      exact .created rfl rfl (by simpa using hsm) rfl rfl rfl
  · next p denied =>
    split at h
    · cases h
    split at h
    · rw [← Option.some.inj h]
      exact he
    next cp _ _ file ho =>
    rw [← Option.some.inj h]
    obtain ⟨hs, -, st, rev, exp, hg, hst⟩ :=
      openResumableStage_eq_some ho
    have hl : st.isTerminal = false := by
      obtain ⟨-, rfl⟩ | ⟨-, rfl, -⟩ := hst
      · rfl
      · rfl
    exact .reopened rfl hg rfl hl rfl hs rfl rfl rfl
  · cases h

/-! ## Every step -/

theorem prepareStep_frame {s' : System} {task : Task} {e : PrepareEvent} (hcr : ∀ file, e ≠ .create file)
    (h : s.prepareStep c task e = some s') : Frame s s' := by
  have he : ∀ t, Frame s { s with task := t } := fun _ => ⟨rfl, rfl, fun _ => rfl⟩
  unfold System.prepareStep at h
  split at h
  · cases h
  · cases h; exact he _
  · cases h; exact he _
  · split at h
    · cases h
      exact he _
    · cases h
      exact he _
  · split at h
    · cases h
      exact he _
    · cases h
      exact he _
  · exact absurd rfl (hcr _)
  · split at h
    · cases h
    · split at h
      · cases h; exact he _
      · cases h; exact he _
  · cases h

theorem taskStep_frame {s s' : System} {c : Config} {task : Task} {e : Event} (he : e.IsFramed)
    (h : s.taskStep c task e = some s') : Frame s s' := by
  cases task with
  | transaction tx phase => exact (transactionStep_stepped h).frame he
  | _ =>
    cases e with
    | prepare e =>
      refine prepareStep_frame ?_ h
      rintro file rfl
      exact he
    | _ => cases h

/-- All but five events leave what was received, published and replayed. -/
theorem step_frame {s s' : System} {c : Config} {e : Event} (he : e.IsFramed)
    (h : s.step c e = some s') : Frame s s' := by
  cases e with
  | prepare | transfer | commit | rollback =>
    obtain ⟨task, -, h⟩ := System.exists_task_of_match h
    exact taskStep_frame he h
  | request | storeElsewhere | removeElsewhere =>
    simp only [System.step, Option.ite_none_right_eq_some, Option.some.injEq] at h
    rw [← h.2]
    exact ⟨rfl, rfl, fun _ => rfl⟩
  | orphan index bytes =>
    simp only [System.step, System.landOrphan, Option.map_eq_some_iff] at h
    obtain ⟨orphan, -, rfl⟩ := h
    have hd := Frame.updateData s orphan.file
      fun f => f.writeAt 0 orphan.position (orphan.data.take bytes)
    exact ⟨hd.received, hd.published, hd.applied⟩
  | orphanFails | target =>
    cases h
    exact ⟨rfl, rfl, fun _ => rfl⟩
  | crash keep tail =>
    simp only [System.step, Option.ite_none_right_eq_some, Option.some.injEq] at h
    rw [← h.2]
    refine ⟨rfl, rfl, fun i => ?_⟩
    simp only [System.crash]
    split_ifs <;> rfl
  | restart now =>
    simp only [System.step, Option.ite_none_right_eq_some] at h
    obtain ⟨sessions, -, -, rfl⟩ := restart_eq_some h.2
    exact ⟨rfl, rfl, fun _ => rfl⟩

/-- What an event of one of the five kinds asks of the running request. -/
theorem task_of_step {s s' : System} {c : Config} {e : Event} (he : ¬ e.IsFramed)
    (h : s.step c e = some s') : ∃ task ∈ s.task, s.taskStep c task e = some s' := by
  cases e with
  | prepare | transfer | commit | rollback => exact System.exists_task_of_match h
  | _ => exact absurd trivial he

end DufsRam.Upload
