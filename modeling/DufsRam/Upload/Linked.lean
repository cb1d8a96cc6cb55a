import DufsRam.StateStore.UploadHistory
import DufsRam.Upload.Outcome

/-!
# The sessions of a stage and the request that works on it

Whatever fails, at most one session that is not terminal has the staging path, and while a
request holds the stage open the path names that file and the session of the request
records it, with the offset the request began at.

Results:
* `SessionsStep.keeps`: while a session owns the stage its offset does not go back.
* `Linked.step`: every step keeps the link between the request, the session and the stage.
* `reachable_linked`: the link holds in every reachable state.
-/

namespace DufsRam.Upload

open StateStore RootedFs

/-! ## Rows -/

/-- A session that is not terminal and has the staging path. -/
structure Owns (c : Config) (sessions : UploadSessions Path) (key : UploadSessionKey)
    (session : StoredUploadSession Path) : Prop where
  stored : ∃ expiresAt, sessions.get key = some ⟨session, expiresAt⟩
  stagePath : session.stagePath = c.stagePath
  live : session.state.isTerminal = false

/-- What holds of the sessions that own the stage. -/
structure RowsSound (c : Config) (sessions : UploadSessions Path) : Prop where
  identity : ∀ key session, Owns c sessions key session → session.stageIdentity.isSome = true
  offset : ∀ key session, Owns c sessions key session →
    session.durableOffset ≤ session.uploadLength
  complete : ∀ key session, Owns c sessions key session →
    session.state = .commitStarted ∨ session.state = .awaitingConfirmation →
    session.durableOffset = session.uploadLength
  unique : ∀ key key' session session', Owns c sessions key session →
    Owns c sessions key' session' → key = key'

namespace RowsSound

variable {c : Config} {t t' : UploadSessions Path}

/-- Sessions that are removed, or replaced by ones that do not own the stage, do no harm. -/
theorem mono (h : RowsSound c t) (hs : ∀ key session, Owns c t' key session →
    Owns c t key session) : RowsSound c t' where
  identity key session ho := h.identity key session (hs key session ho)
  offset key session ho := h.offset key session (hs key session ho)
  complete key session ho := h.complete key session (hs key session ho)
  unique key key' session session' ho ho' :=
    h.unique key key' session session' (hs key session ho) (hs key' session' ho')

end RowsSound

variable {c : Config} {t : UploadSessions Path} {now expiresAt : ℤ} {key key' : UploadSessionKey}
  {session : StoredUploadSession Path} {tx tx₁ : UploadTransaction} {task : Task} {s' s₁ : System}
  {phase : Phase}

theorem Owns.of_swept (h : Owns c (swept t now) key session) : Owns c t key session := by
  obtain ⟨⟨expiresAt, hg⟩, hp, hl⟩ := h
  exact ⟨⟨expiresAt, get_of_get_swept hg⟩, hp, hl⟩

theorem Owns.swept (h : Owns c t key session) (now : ℤ) : Owns c (swept t now) key session := by
  obtain ⟨⟨expiresAt, hg⟩, hp, hl⟩ := h
  exact ⟨⟨expiresAt, get_swept hg hl⟩, hp, hl⟩

theorem Owns.of_erase (h : Owns c (t.erase key) key' session) :
    key' ≠ key ∧ Owns c t key' session := by
  obtain ⟨⟨expiresAt, hg⟩, hp, hl⟩ := h
  obtain ⟨hne, hg⟩ := Table.get_of_get_erase hg
  exact ⟨hne, ⟨expiresAt, hg⟩, hp, hl⟩

theorem Owns.of_put {row : UploadRow Path} (h : Owns c (t.put key row) key' session) :
    (key' = key ∧ session = row.session) ∨ (key' ≠ key ∧ Owns c t key' session) := by
  obtain ⟨⟨expiresAt, hg⟩, hp, hl⟩ := h
  obtain ⟨rfl, hr⟩ | ⟨hne, hg⟩ := Table.get_put_cases hg
  · exact Or.inl ⟨rfl, by rw [← hr]⟩
  · exact Or.inr ⟨hne, ⟨expiresAt, hg⟩, hp, hl⟩

/-- The session that is stored under a key is the only one there. -/
theorem Owns.eq {session' : StoredUploadSession Path} (h : Owns c t key session)
    (hg : t.get key = some ⟨session', expiresAt⟩) : session = session' := by
  obtain ⟨⟨exp', hg'⟩, -, -⟩ := h
  rw [hg] at hg'
  injection hg' with hr
  injection hr with hs
  exact hs.symm

/-- A save that stores a session of this stage leaves no other session that owns it. -/
theorem owns_of_saved {proposed : StoredUploadSession Path} (ha : Admitted t key proposed)
    (hp : proposed.stagePath = c.stagePath) (hl : proposed.state.isTerminal = false)
    (h : Owns c (t.put key ⟨proposed, expiresAt⟩) key' session) :
    key' = key ∧ session = proposed := by
  obtain hn | ⟨hne, hold⟩ := h.of_put
  · exact hn
  · obtain ⟨exp', hg⟩ := hold.stored
    exact absurd (ha.alone hl key' _ hg (hold.stagePath.trans hp.symm) hold.live) hne

/-- A save keeps the sessions of a stage apart. -/
theorem RowsSound.saved {p : StoredUploadSession Path} (h : RowsSound c t)
    (ha : Admitted t key p) (hp : p.stagePath = c.stagePath)
    (hid : p.state.isTerminal = false → p.stageIdentity.isSome = true) :
    RowsSound c (t.put key ⟨p, expiresAt⟩) := by
  cases hl : p.state.isTerminal with
  | true =>
    refine h.mono fun key' session ho => ?_
    obtain ⟨-, rfl⟩ | ⟨-, hold⟩ := ho.of_put
    · have := ho.live
      rw [hl] at this
      cases this
    · exact hold
  | false =>
    refine ⟨fun key' session ho => ?_, fun key' session ho => ?_, fun key' session ho hs => ?_,
      fun key₁ key₂ sess₁ sess₂ h₁ h₂ => ?_⟩
    · rw [(owns_of_saved ha hp hl ho).2]
      exact hid hl
    · rw [(owns_of_saved ha hp hl ho).2]
      exact ha.offset
    · rw [(owns_of_saved ha hp hl ho).2] at hs ⊢
      exact ha.complete hs
    · rw [(owns_of_saved ha hp hl h₁).1, (owns_of_saved ha hp hl h₂).1]

/-! ## What a step does to the rows -/

/-- A step makes no session own the stage, or it saves a session of the stage. -/
inductive SessionsStep (c : Config) (t : UploadSessions Path) : UploadSessions Path → Prop
  | fewer {t' : UploadSessions Path} :
      (∀ key session, Owns c t' key session → Owns c t key session) → SessionsStep c t t'
  | saved {now : ℤ} {key : UploadSessionKey} {proposed : StoredUploadSession Path} {expiresAt : ℤ} :
      Admitted (swept t now) key proposed → proposed.stagePath = c.stagePath →
      (proposed.state.isTerminal = false → proposed.stageIdentity.isSome = true) →
      SessionsStep c t ((swept t now).put key ⟨proposed, expiresAt⟩)

namespace SessionsStep

variable {c : Config} {t t' : UploadSessions Path}

theorem same : SessionsStep c t t := .fewer fun _ _ ho => ho

theorem erase (key : UploadSessionKey) : SessionsStep c t (t.erase key) :=
  .fewer fun _ _ ho => ho.of_erase.2

theorem rows (h : SessionsStep c t t') (hr : RowsSound c t) : RowsSound c t' := by
  cases h with
  | fewer hs => exact hr.mono hs
  | saved ha hp hid =>
    exact (hr.mono fun _ _ ho => ho.of_swept).saved ha hp hid

variable {key : UploadSessionKey}

/-- While a session owns the stage its offset does not go back and it keeps the file it records. -/
theorem keeps (h : SessionsStep c t t') (hr : RowsSound c t)
    {session sess' : StoredUploadSession Path} (ho : Owns c t key session)
    (ho' : Owns c t' key sess') : session.durableOffset ≤ sess'.durableOffset ∧
      sess'.stageIdentity = session.stageIdentity := by
  cases h with
  | fewer hs =>
    obtain ⟨expiresAt, hg⟩ := ho.stored
    rw [(hs key sess' ho').eq hg]
    exact ⟨le_rfl, rfl⟩
  | @saved now _ _ _ ha =>
    obtain ⟨expiresAt, hg⟩ := (ho.swept now).stored
    obtain ⟨rfl, rfl⟩ | ⟨-, hold⟩ := ho'.of_put
    · have hm := ha.merges _ hg
      exact ⟨hm.durableOffset, hm.stageIdentity (hr.identity _ _ ho)⟩
    · rw [hold.eq hg]
      exact ⟨le_rfl, rfl⟩

theorem persisted {s s' : System} {now : ℤ} {p : StoredUploadSession Path} {ok : Bool}
    (hp : Persisted s now key p ok s') (hpt : p.stagePath = c.stagePath)
    (hid : p.state.isTerminal = false → p.stageIdentity.isSome = true) :
    SessionsStep c s.sessions s'.sessions := by
  cases hp with
  | refused => exact .same
  | swept => exact .fewer fun _ _ ho => ho.of_swept
  | stored ok expiresAt ha => exact .saved ha hpt hid

end SessionsStep

/-! ## The link -/

/-- The state of the session that a transaction works for, until the commit starts. -/
def UploadTransaction.rowState (tx : UploadTransaction) : StoredUploadState :=
  if tx.awaiting then .awaitingConfirmation else .running

theorem UploadTransaction.rowState_isTerminal (tx : UploadTransaction) :
    tx.rowState.isTerminal = false := by
  unfold UploadTransaction.rowState
  split_ifs <;> rfl

/-- The stage path names the open file, and the session of the request records it. -/
structure Attached (c : Config) (sessions : UploadSessions Path) (stage : Option FileIdentity)
    (tx : UploadTransaction) : Prop where
  stage : stage = some tx.file
  row : ∃ targetRevision expiresAt,
    sessions.get (c.key tx.request.owner) =
      some ⟨c.sessionOf tx tx.rowState tx.initialOffset targetRevision, expiresAt⟩ ∧
    (tx.awaiting = true → tx.checkpoint.bind UploadCheckpoint.targetRevision = targetRevision)

theorem Attached.owns {ses : UploadSessions Path} {stg : Option FileIdentity}
    (h : Attached c ses stg tx) :
    ∃ rev, Owns c ses (c.key tx.request.owner)
      (c.sessionOf tx tx.rowState tx.initialOffset rev) := by
  obtain ⟨rev, expiresAt, hg, -⟩ := h.row
  exact ⟨rev, ⟨expiresAt, hg⟩, rfl, tx.rowState_isTerminal⟩

/-- The commit of the transaction is recorded. -/
def CommitRecorded (c : Config) (sessions : UploadSessions Path) (tx : UploadTransaction) : Prop :=
  ∃ targetRevision expiresAt, sessions.get (c.key tx.request.owner) =
    some ⟨c.sessionOf tx .commitStarted tx.request.uploadLength targetRevision, expiresAt⟩

/-- What each phase knows of the session and the stage. -/
def Phase.Linked (c : Config) (sessions : UploadSessions Path) (stage : Option FileIdentity)
    (tx : UploadTransaction) : Phase → Prop
  | .initialCheckpoint => tx.request.mode = .fresh ∧ stage = some tx.file
  | .truncating | .reserving | .transferring _ | .transferFailed _ | .transferred | .replaying
  | .starting => Attached c sessions stage tx
  | .rebinding => tx.awaiting = false ∧ Attached c sessions stage tx
  | .timedOut => (tx.request.mode = .fresh ∧ stage = some tx.file) ∨ Attached c sessions stage tx
  | .discarding _ => tx.request.mode = .fresh ∧ stage = some tx.file
  | .committing => stage = some tx.file ∧ CommitRecorded c sessions tx
  | .recording .awaitingConfirmation => CommitRecorded c sessions tx
  | .recording .committed | .recording .unknown | .resetting _ | .removing _ _ | .rejecting => True

/-- What `prepare_upload` has established of the request. -/
structure Preparation.Sound (p : Preparation) : Prop where
  fresh : p.request.mode = .fresh → p.checkpoint = none
  missing : p.targetIdentity = .missing → p.request.overwrite = .noReplace
  noReplace : p.request.overwrite = .noReplace →
    p.targetIdentity = .missing ∧ p.targetMetadata = none

/-- The checkpoint is that of the stored session. -/
def Current (c : Config) (sessions : UploadSessions Path) (r : UploadRequest)
    (checkpoint : UploadCheckpoint) : Prop :=
  ∃ session, Owns c sessions (c.key r.owner) session ∧
    checkpoint = ⟨session.uploadLength, session.durableOffset, recordState session.state,
      session.targetRevision⟩

/-- What a request knows of the session and the stage. -/
def Task.Linked (c : Config) (sessions : UploadSessions Path) (stage : Option FileIdentity) :
    Task → Prop
  | .looking _ => True
  | .inspecting r record => ∀ checkpoint ∈ record, Current c sessions r checkpoint
  | .preserving r record =>
    r.overwrite ≠ .noReplace ∧ ∀ checkpoint ∈ record, Current c sessions r checkpoint
  | .creating p => p.Sound ∧ p.request.mode = .fresh
  | .reopening p => p.Sound ∧ p.request.mode.isResume = true ∧
      ∀ checkpoint ∈ p.checkpoint, Current c sessions p.request checkpoint
  | .transaction tx phase => tx.Sound ∧ phase.Linked c sessions stage tx

/-- The sessions of the stage and the running request fit together. -/
structure Linked (c : Config) (s : System) : Prop where
  rows : RowsSound c s.sessions
  task : ∀ task ∈ s.task, task.Linked c s.sessions s.stage

/-- What a step from the sessions `t` leads to. -/
structure LinkedSince (c : Config) (t : UploadSessions Path) (s : System) : Prop where
  sessions : SessionsStep c t s.sessions
  task : ∀ task ∈ s.task, task.Linked c s.sessions s.stage

/-! ## Keeping the link -/

variable {t' : UploadSessions Path}

theorem Attached.kept {stg : Option FileIdentity} (h : Attached c t stg tx)
    (hk : ∀ key row, t.get key = some row → c.owns row = true → t'.get key = some row) :
    Attached c t' stg tx := by
  obtain ⟨hs, rev, expiresAt, hg, hr⟩ := h
  refine ⟨hs, rev, expiresAt, hk _ _ hg ?_, hr⟩
  simp [Config.owns, Config.sessionOf, tx.rowState_isTerminal]

/-- The rows of this stage stay when others store and remove theirs. -/
theorem Task.Linked.kept {stage : Option FileIdentity} (h : task.Linked c t stage)
    (hk : ∀ key row, t.get key = some row → c.owns row = true → t'.get key = some row) :
    task.Linked c t' stage := by
  have hc : ∀ r checkpoint, Current c t r checkpoint → Current c t' r checkpoint := by
    rintro r checkpoint ⟨session, ⟨⟨expiresAt, hg⟩, hpt, hl⟩, rfl⟩
    exact ⟨session, ⟨⟨expiresAt, hk _ _ hg (by simp [Config.owns, hpt, hl])⟩, hpt, hl⟩, rfl⟩
  have hr : ∀ tx, CommitRecorded c t tx → CommitRecorded c t' tx := by
    rintro tx ⟨rev, expiresAt, hg⟩
    exact ⟨rev, expiresAt, hk _ _ hg
      (by simp [Config.owns, Config.sessionOf, StoredUploadState.isTerminal])⟩
  cases task with
  | looking r => trivial
  | inspecting r rec => exact fun checkpoint hm => hc _ _ (h checkpoint hm)
  | preserving r rec => exact ⟨h.1, fun checkpoint hm => hc _ _ (h.2 checkpoint hm)⟩
  | creating p => exact h
  | reopening p =>
    exact ⟨h.1, h.2.1, fun checkpoint hm => hc _ _ (h.2.2 checkpoint hm)⟩
  | transaction tx phase =>
    refine ⟨h.1, ?_⟩
    have hp := h.2
    cases phase with
    | initialCheckpoint | discarding => exact hp
    | truncating | reserving | transferring | transferFailed | transferred | replaying | starting =>
      exact hp.kept hk
    | rebinding => exact ⟨hp.1, hp.2.kept hk⟩
    | timedOut => exact hp.imp id fun h => h.kept hk
    | committing => exact ⟨hp.1, hr tx hp.2⟩
    | recording rec =>
      cases rec with
      | awaitingConfirmation => exact hr tx hp
      | committed | unknown => trivial
    | resetting | removing | rejecting => trivial

namespace LinkedSince

variable {c : Config} {t : UploadSessions Path} {s : System} {tx : UploadTransaction}

/-- A state without a request. -/
theorem idle (h : SessionsStep c t s.sessions) (ht : s.task = none) : LinkedSince c t s :=
  ⟨h, by simp [ht]⟩

theorem enter {phase : Phase} (h : SessionsStep c t s.sessions) (htx : tx.Sound)
    (hp : phase.Linked c s.sessions s.stage tx) : LinkedSince c t (s.enter tx phase) := by
  refine ⟨h, fun task ht => ?_⟩
  cases ht
  exact ⟨htx, hp⟩

theorem finish (h : SessionsStep c t s.sessions) (tx : UploadTransaction) :
    LinkedSince c t (s.finish tx) :=
  .idle h rfl

theorem rollBack (h : SessionsStep c t s.sessions) (htx : tx.Sound) (rej : Bool) :
    LinkedSince c t (s.rollBack tx rej) :=
  .enter h htx trivial

theorem afterReset (h : SessionsStep c t s.sessions) (htx : tx.Sound) (rej : Bool) :
    LinkedSince c t (s.afterReset tx rej) := by
  cases rej with
  | true => exact .enter h htx trivial
  | false => exact .finish h tx

end LinkedSince

variable {s : System}

/-- What a record that names the stage does to the rows; when it succeeds the session of the
    transaction is stored. -/
def StageRecorded (c : Config) (s : System) (tx : UploadTransaction) (st : StoredUploadState)
    (off : ℕ) (ok : Bool) (s' : System) (tx' : UploadTransaction) : Prop :=
  (∃ cursor queued, tx' = { tx with cursor := cursor, queued := queued }) ∧
    s'.stage = s.stage ∧ SessionsStep c s.sessions s'.sessions ∧
    (ok = true → ∃ targetRevision expiresAt, s'.sessions.get (c.key tx.request.owner) =
      some ⟨c.sessionOf tx st off targetRevision, expiresAt⟩)

theorem persistStage_linked {tx' : UploadTransaction} {rev : Option (Option Digest)}
    {off : ℕ} {st : StoredUploadState} {sp : Bool}
    {f : Option PersistFault} {ok : Bool}
    (h : s.persistStage c now tx rev off st sp f = (ok, s', tx')) :
    StageRecorded c s tx st off ok s' tx' := by
  obtain ⟨rfl, hfl⟩ | ⟨rfl, hs, hl, targetRevision, hr, hpd⟩ :=
    persistStage_cases s c now tx rev off st sp f h
  · refine ⟨?_, ?_, ?_, by simp⟩
    · cases hfl <;> exact ⟨_, _, rfl⟩
    · cases hfl <;> rfl
    · cases hfl <;> exact .same
  · refine ⟨⟨_, _, rfl⟩, ?_, ?_, ?_⟩
    · rw [hpd.frame]
      rfl
    · exact SessionsStep.persisted (s := s.syncedStage tx sp) hpd rfl fun _ => rfl
    · rintro rfl
      obtain ⟨expiresAt, hg⟩ := hpd.get
      exact ⟨targetRevision, expiresAt, hg⟩

theorem persistCheckpoint_linked {tx' : UploadTransaction} {rev : Option (Option Digest)}
    {off : ℕ} {ini : Bool} {f : Option PersistFault} {ok : Bool}
    (h : s.persistCheckpoint c now tx rev off ini f = (ok, s', tx')) :
    StageRecorded c s tx .running off ok s' tx' := by
  unfold System.persistCheckpoint at h
  by_cases hl : off ≤ tx.request.uploadLength
  · rw [if_pos hl] at h
    exact persistStage_linked h
  · rw [if_neg hl] at h
    cases h
    exact ⟨⟨_, _, rfl⟩, rfl, .same, by simp⟩

/-- The session of a transaction that is no confirmation, at its initial offset. -/
theorem Attached.of_running {ses : UploadSessions Path} {stg : Option FileIdentity}
    {rev : Option Digest} (hs : stg = some tx.file)
    (haw : tx.awaiting = false) (hg : ses.get (c.key tx.request.owner) =
      some ⟨c.sessionOf tx .running tx.initialOffset rev, expiresAt⟩) :
    Attached c ses stg tx := by
  refine ⟨hs, rev, expiresAt, ?_, by simp [haw]⟩
  simpa [UploadTransaction.rowState, haw] using hg

theorem Preparation.Sound.awaiting_eq_false (h : tx.Sound) (hf : tx.request.mode = .fresh) :
    tx.awaiting = false := by
  simp [UploadTransaction.awaiting, h.fresh hf]

/-! ## Preparation -/

/-- What an admitted lookup says of the store. -/
theorem current_of_admitRecord {r : UploadRequest} {denied : Bool}
    {rec : Option UploadCheckpoint} {checkpoint : UploadCheckpoint}
    (h : admitRecord c r (s.lookup c (c.key r.owner) denied) = some rec)
    (hm : checkpoint ∈ rec) : Current c s.sessions r checkpoint := by
  cases hm
  cases hlk : s.lookup c (c.key r.owner) denied with
  | notSeen =>
    rw [hlk] at h
    simp [admitRecord] at h
  | foreignOwner => rw [hlk] at h; cases h
  | found found =>
    have hf : found = checkpoint ∧
        (found.state = .running ∨ found.state = .awaitingConfirmation) := by
      cases hst : found.state <;> simp [admitRecord] at h <;> simp_all
    obtain ⟨rfl, hst⟩ := hf
    unfold System.lookup at hlk
    split at hlk
    · cases hlk
    rename_i session expiresAt hg
    split_ifs at hlk with hb
    cases hlk
    have hb : c.binds session = true := by simpa using hb
    refine ⟨session, ⟨⟨expiresAt, hg⟩, (Config.binds_iff.mp hb).2, ?_⟩, rfl⟩
    cases hs : session.state <;> simp [hs, recordState] at hst <;> rfl

/-- The reopened stage is that of the stored session. -/
theorem attached_of_openResumableStage {p : Preparation} {cp : UploadCheckpoint}
    {denied : Bool} {file : FileIdentity} (hcp : p.checkpoint = some cp)
    (hcr : Current c s.sessions p.request cp)
    (h : s.openResumableStage c p.request p.request.initialOffset cp.state denied =
      some file) (cursor : ℕ) (queued : List UInt8) :
    Attached c s.sessions s.stage
      { p with file := file, cursor := cursor, queued := queued } := by
  obtain ⟨hs, -, state, targetRevision, expiresAt, hg, hst⟩ := openResumableStage_eq_some h
  obtain ⟨session, ho, hc⟩ := hcr
  have hr : cp.targetRevision = targetRevision := by
    rw [hc, ho.eq hg]
  refine ⟨hs, targetRevision, expiresAt, ?_, fun _ => by simp [hcp, hr]⟩
  have hrs : UploadTransaction.rowState
      { p with file := file, cursor := cursor, queued := queued } = state := by
    obtain ⟨he, rfl⟩ | ⟨he, rfl, -⟩ := hst <;>
      simp [UploadTransaction.rowState, UploadTransaction.awaiting, hcp, he]
  rw [hrs]
  exact hg

theorem linked_of_afterChecks {ses : UploadSessions Path} {stage : Option FileIdentity}
    {r : UploadRequest} {rec : Option UploadCheckpoint} {fid : ReplacementTargetIdentity}
    {md : Option PreservedFileMetadata}
    (h : Task.afterChecks r rec fid md = some task)
    (hr : ∀ cp ∈ rec, Current c ses r cp)
    (hms : fid = .missing → r.overwrite = .noReplace)
    (hnr : r.overwrite = .noReplace → fid = .missing ∧ md = none) :
    task.Linked c ses stage := by
  unfold Task.afterChecks at h
  split_ifs at h
  cases hm : r.mode with
  | fresh =>
    simp only [hm, Option.some.injEq] at h
    subst h
    exact ⟨⟨fun _ => rfl, hms, hnr⟩, hm⟩
  | resume off =>
    simp only [hm, Option.some.injEq] at h
    subst h
    have hrs : r.mode ≠ .fresh := by simp [hm]
    exact ⟨⟨fun hf => absurd hf hrs, hms, hnr⟩, by simp [hm, UploadMode.isResume], hr⟩

/-- The steps of a request that has no file keep the link. -/
theorem prepareStep_linked {e : PrepareEvent} (h : s.prepareStep c task e = some s')
    (ht : task.Linked c s.sessions s.stage) : LinkedSince c s.sessions s' := by
  unfold System.prepareStep at h
  split at h
  · cases h
  · -- quit
    cases h
    exact .idle .same rfl
  · -- lookup
    cases h
    refine ⟨.same, fun task ht => ?_⟩
    obtain ⟨rec, hr, rfl⟩ := Option.map_eq_some_iff.mp ht
    exact fun cp hm => current_of_admitRecord hr hm
  · -- inspect
    rename_i r rec
    split at h
    · rename_i ho
      cases h
      refine ⟨.same, fun task hm => ?_⟩
      simp only [Option.mem_def, Option.ite_none_left_eq_some] at hm
      exact linked_of_afterChecks hm.2 ht (fun _ => ho) fun _ => ⟨rfl, rfl⟩
    · rename_i want ho
      cases h
      refine ⟨.same, fun task hm => ?_⟩
      simp only [Option.mem_def, Option.ite_none_left_eq_some, Option.some.injEq] at hm
      obtain ⟨-, rfl⟩ := hm
      exact ⟨by simp [ho], ht⟩
  · -- preserve
    rename_i r rec
    obtain ⟨ho, hr⟩ := ht
    split at h
    · cases h
      exact .idle .same rfl
    rename_i fid md hmt
    cases h
    refine ⟨.same, fun task hm => ?_⟩
    simp only [Option.mem_def, Option.ite_none_left_eq_some, not_not] at hm
    refine linked_of_afterChecks hm.2 hr (fun hms => ?_) fun hnr => absurd hnr ho
    -- The revision of a missing target is none, that of the request is not.
    have hrv := hm.1
    rw [hms] at hrv
    cases hp : r.overwrite with
    | noReplace => rfl
    | ifUnchanged want =>
      simp [hp, Config.targetRevision, UploadOverwritePolicy.revision] at hrv
  · -- create
    unfold System.createStage at h
    split_ifs at h
    · cases h
      exact .idle .same rfl
    · cases h
      exact .enter .same ht.1 ⟨ht.2, rfl⟩
  · -- reopen
    rename_i p denied
    obtain ⟨hs, -, hc⟩ := ht
    split at h
    · cases h
    rename_i cp hcp
    split at h
    · cases h
      exact .idle .same rfl
    rename_i file hop
    cases h
    exact .enter .same hs (attached_of_openResumableStage hcp (hc _ hcp) hop _ _)
  · cases h

/-! ## The open stage -/

theorem DataOnly.sessions (h : DataOnly s tx s₁ tx₁) : s₁.sessions = s.sessions := by
  obtain ⟨-, f, rfl⟩ := h
  rfl

theorem DataOnly.sessionsStep (h : DataOnly s tx s₁ tx₁) :
    SessionsStep c s.sessions s₁.sessions := by
  rw [h.sessions]
  exact .same

theorem DataOnly.sound (h : DataOnly s tx s₁ tx₁) (htx : tx.Sound) : tx₁.Sound := by
  obtain ⟨⟨cur, qd, rfl⟩, -⟩ := h
  exact htx

theorem DataOnly.stage (h : DataOnly s tx s₁ tx₁) (hs : s.stage = some tx.file) :
    s₁.stage = some tx₁.file := by
  obtain ⟨⟨cur, qd, rfl⟩, f, rfl⟩ := h
  exact hs

theorem DataOnly.attached (h : DataOnly s tx s₁ tx₁) (ha : Attached c s.sessions s.stage tx) :
    Attached c s₁.sessions s₁.stage tx₁ := by
  obtain ⟨⟨cur, qd, rfl⟩, f, rfl⟩ := h
  exact ⟨ha.stage, ha.row⟩

theorem finishSpaceFailure_linked (htx : tx.Sound) (f : Option System.TruncateFault) :
    LinkedSince c s.sessions (s.finishSpaceFailure tx f) := by
  unfold System.finishSpaceFailure
  split_ifs
  · exact .finish .same tx
  · exact .finish (cutBack_dataOnly rfl).sessionsStep _
  · exact .rollBack .same htx false

/-- A resumed stage that was cut back is rebound or goes on. -/
theorem linked_afterTruncation {ses : UploadSessions Path} {stg : Option FileIdentity}
    (h : Attached c ses stg tx) :
    tx.afterTruncation.Linked c ses stg tx := by
  unfold UploadTransaction.afterTruncation
  split_ifs with hrb
  · obtain ⟨cp, hcp, hr⟩ := (Option.any_eq_true _ _).mp hrb
    simp only [Bool.and_eq_true, decide_eq_true_iff] at hr
    exact ⟨by simp [UploadTransaction.awaiting, hcp, hr.1], h⟩
  · exact h

/-- The steps from the open stage to the body keep the link. -/
theorem openStep_linked {e : PrepareEvent} (h : s.openStep c tx phase e = some s') (htx : tx.Sound)
    (hp : phase.Linked c s.sessions s.stage tx) : LinkedSince c s.sessions s' := by
  unfold System.openStep at h
  split at h
  · -- abandon
    cases h
    exact .enter .same htx hp
  · -- deadline before the first checkpoint
    cases h
    exact .enter .same htx (Or.inl hp)
  · -- the first checkpoint
    rename_i now f
    obtain ⟨hf, hst⟩ := hp
    split at h
    · rename_i s₁ tx₁ hpr
      obtain ⟨⟨cur, qd, rfl⟩, hk, hs, hsto⟩ :=
        persistCheckpoint_linked hpr
      obtain ⟨rev, expiresAt, hg⟩ := hsto rfl
      cases h
      have hz : tx.initialOffset = 0 := by
        simp [UploadTransaction.initialOffset, UploadRequest.initialOffset, hf, UploadMode.offset]
      rw [← hz] at hg
      exact .enter hs htx (.of_running (hk.trans hst) (htx.awaiting_eq_false hf) hg)
    · rename_i s₁ tx₁ hpr
      obtain ⟨⟨cur, qd, rfl⟩, hk, hs, -⟩ := persistCheckpoint_linked hpr
      cases h
      exact .enter hs htx ⟨hf, hk.trans hst⟩
  · cases h
    exact .finish .same tx
  · -- the truncation
    split_ifs at h
    · cases h
      exact .finish .same tx
    · cases h
      exact .enter .same htx (linked_afterTruncation hp)
    · cases h
      exact .enter .same htx (linked_afterTruncation hp)
  · cases h
    exact .finish .same tx
  · -- the new revision
    obtain ⟨haw, ha⟩ := hp
    split at h
    · rename_i s₁ tx₁ hpr
      obtain ⟨⟨cur, qd, rfl⟩, hk, hs, hsto⟩ :=
        persistCheckpoint_linked hpr
      obtain ⟨rev, expiresAt, hg⟩ := hsto rfl
      cases h
      exact .enter hs htx (.of_running (hk.trans ha.stage) haw hg)
    · rename_i s₁ tx₁ hpr
      obtain ⟨-, -, hs, -⟩ := persistCheckpoint_linked hpr
      cases h
      exact .finish hs tx₁
  · split_ifs at h
    cases h
    exact .finish .same tx
  · cases h
    exact .enter .same htx (Or.inr hp)
  · cases h
    exact finishSpaceFailure_linked htx _
  · cases h
    exact .enter .same htx hp
  · cases h

/-! ## Transfer and failures -/

theorem writeUploadChunk_linked (htx : tx.Sound) (h : Attached c s.sessions s.stage tx)
    (rem : ℕ) (acc : List UInt8) (excess : Bool) (f : Option ChunkFault) :
    LinkedSince c s.sessions (s.writeUploadChunk tx rem acc excess f) := by
  have ha : ∀ cursor queued,
      Attached c s.sessions s.stage { tx with cursor := cursor, queued := queued } :=
    fun _ _ => ⟨h.stage, h.row⟩
  cases f with
  | none =>
    cases excess with
    | true | false => exact .enter .same htx (ha _ _)
  | some f => cases f <;> exact .enter .same htx (ha _ _)

/-- Receiving the body keeps the link. -/
theorem transferStep_linked {e : TransferEvent} (h : s.transferStep c tx phase e = some s')
    (htx : tx.Sound) (hp : phase.Linked c s.sessions s.stage tx) :
    LinkedSince c s.sessions s' := by
  unfold System.transferStep at h
  split at h
  · cases h
    exact .enter .same htx ⟨hp.stage, hp.row⟩
  · cases h
    exact .enter .same htx ⟨hp.stage, hp.row⟩
  · cases h
    unfold System.receiveChunk
    simp only
    split_ifs
    · exact .enter .same htx ⟨hp.stage, hp.row⟩
    · exact .enter .same htx ⟨hp.stage, hp.row⟩
    · exact writeUploadChunk_linked (s := s.setReceived _ _) htx hp _ _ _ _
  · split at h <;> cases h <;> exact .enter .same htx hp
  · cases h
    exact .enter .same htx hp
  · cases h

theorem checkpointPartial_linked (htx : tx.Sound) (size : ℕ) (f : SettleFaults) :
    LinkedSince c s.sessions (s.checkpointPartial c tx size f) := by
  unfold System.checkpointPartial
  split_ifs
  · cases hp : s.persistCheckpoint c f.now tx (some tx.targetRevision) size false f.persist with
    | mk ok out =>
      obtain ⟨s', tx'⟩ := out
      obtain ⟨-, -, hs, -⟩ := persistCheckpoint_linked hp
      exact .finish hs tx'
  · exact .finish .same tx
  · exact .rollBack .same htx false

theorem settleFailure_linked (htx : tx.Sound) (h : Attached c s.sessions s.stage tx)
    (err : UploadTransferError) (f : SettleFaults) :
    LinkedSince c s.sessions (s.settleFailure c tx err f) := by
  have hs := settleFailure_settled s c tx err f
  generalize s.settleFailure c tx err f = s' at hs
  cases hs with
  | confirmation | unreadable => exact .finish .same tx
  | late => exact .enter .same htx (Or.inr h)
  | cut hc => exact .finish (cutBack_dataOnly hc).sessionsStep _
  | undone => exact .rollBack .same htx false
  | cutUndone hc =>
    exact .rollBack (cutBack_dataOnly hc).sessionsStep ((cutBack_dataOnly hc).sound htx) false
  | checkpoint => exact checkpointPartial_linked htx _ f

theorem UploadTransaction.fresh_of_resume (h : tx.resume = false) : tx.request.mode = .fresh := by
  cases hm : tx.request.mode with
  | fresh => rfl
  | resume off => simp [UploadTransaction.resume, UploadMode.isResume, hm] at h

theorem finishTimedOutUpload_linked (htx : tx.Sound) (hst : s.stage = some tx.file)
    (flush : Option ℕ) (f : SettleFaults) :
    LinkedSince c s.sessions (s.finishTimedOutUpload c tx flush f) := by
  obtain ⟨s₁, tx₁, hfl, hr⟩ := finishTimedOutUpload_timedOut s c tx flush f
  have hf := hfl.dataOnly
  generalize s.finishTimedOutUpload c tx flush f = s' at hr
  rw [← hf.sessions]
  have htx₁ := hf.sound htx
  have hs₁ := hf.stage hst
  cases hr with
  | returned => exact .finish .same tx₁
  | unrecorded hrs => exact .enter .same htx₁ ⟨tx₁.fresh_of_resume hrs, hs₁⟩
  | unreadable => exact .rollBack .same htx₁ false
  | checkpoint hcp hp =>
    obtain ⟨⟨cur, qd, htx'⟩, hk, hs, -⟩ := persistCheckpoint_linked hp
    split_ifs with hd
    · exact .finish hs _
    · have hrs : tx₁.resume = false := by simpa using (not_or.mp hd).2
      subst htx'
      exact .enter hs htx₁ ⟨tx₁.fresh_of_resume hrs, hk.trans hs₁⟩
  | cut hrs hc => exact .finish (cutBack_dataOnly hc).sessionsStep _

/-! ## Commit and rollback -/

theorem precommit_linked (htx : tx.Sound) (h : Attached c s.sessions s.stage tx)
    (f : Option PrecommitFault) (now : ℤ) (persist : Option PersistFault) :
    LinkedSince c s.sessions (s.precommit c tx f now persist) := by
  obtain ⟨s₁, tx₁, hfl, hr⟩ := precommit_precommitted s c tx f now persist
  have hf := hfl.dataOnly
  generalize s.precommit c tx f now persist = s' at hr
  rw [← hf.sessions]
  have htx₁ := hf.sound htx
  have ha₁ := hf.attached h
  cases hr with
  | returned => exact .finish .same tx₁
  | undone | long => exact .rollBack .same htx₁ false
  | noSpace truncate => exact finishSpaceFailure_linked htx₁ truncate
  | late => exact .enter .same htx₁ (Or.inr ha₁)
  | complete => exact .enter .same htx₁ ha₁
  | short _ _ hp =>
    obtain ⟨-, -, hs, -⟩ := persistCheckpoint_linked hp
    exact .finish hs _

theorem replay_linked (htx : tx.Sound) (h : Attached c s.sessions s.stage tx)
    (r : ReplayResult) : LinkedSince c s.sessions (s.replay tx r) := by
  unfold System.replay
  split
  · exact .enter .same htx h
  · exact .enter .same htx h
  rename_i md chg hm
  have hs : (if chg then s.recordReplay tx md else s).sessions = s.sessions := by
    cases chg <;> rfl
  rw [← hs]
  by_cases haw : tx.awaiting = true
  · simp only [haw, if_true]
    exact .finish .same tx
  · simp only [haw]
    exact .rollBack .same htx false

theorem startCommit_linked (htx : tx.Sound) (h : Attached c s.sessions s.stage tx) (spc : Bool)
    (now : ℤ) (f : Option PersistFault) :
    LinkedSince c s.sessions (s.startCommit c tx spc now f) := by
  unfold System.startCommit
  split_ifs
  · exact .finish .same tx
  · exact .rollBack .same htx false
  split
  · rename_i s' tx' hp
    obtain ⟨⟨cur, qd, rfl⟩, hk, hs, hst⟩ := persistStage_linked hp
    exact .enter hs htx ⟨hk.trans h.stage, hst rfl⟩
  · rename_i s' tx' hp
    obtain ⟨⟨cur, qd, rfl⟩, -, hs, -⟩ := persistStage_linked hp
    exact .rollBack hs (by exact htx) false

theorem commit_linked {spc : Bool} {r : CommitResult}
    (h : s.commit c tx spc r = some s') (htx : tx.Sound)
    (hr : CommitRecorded c s.sessions tx) :
    LinkedSince c s.sessions s' := by
  have ha : ∀ s₁ : System, s₁.sessions = s.sessions → ∀ out,
      LinkedSince c s.sessions (s₁.afterCommit tx out) := by
    intro s₁ hs out
    rw [← hs]
    cases out with
    | published | publishedDurabilityUnknown => exact .enter .same htx trivial
    | rejected => exact .enter .same htx (by rw [hs]; exact hr)
    | notPublished => exact .rollBack .same htx true
  unfold System.commit at h
  split_ifs at h
  · cases h
    exact .rollBack .same htx false
  split at h
  · cases h
    exact ha s rfl _
  · cases h
    exact ha (s.publish c tx _ _) rfl _

theorem persistTerminal_sessions (c : Config) (s : System) (now : ℤ) (tx : UploadTransaction)
    (off : ℕ) {st : StoredUploadState} (ht : st.isTerminal = true) (f : Option StoreFault) :
    SessionsStep c s.sessions (s.persistTerminal c now tx off st f).sessions := by
  refine .persisted (persistState_persisted s c now _ _ none off st none f) rfl fun hl => ?_
  rw [show (s.proposedSession c _ _ none off st none).state = st from rfl, ht] at hl
  cases hl

theorem recordCommit_linked (rec : CommitRecord) (now : ℤ) (f : Option PersistFault) :
    LinkedSince c s.sessions (s.recordCommit c tx rec now f) := by
  cases rec with
  | committed | unknown => exact .finish (persistTerminal_sessions c s now tx _ rfl _) tx
  | awaitingConfirmation =>
    obtain ⟨-, -, hs, -⟩ := persistStage_linked (s := s) (c := c) rfl
    exact .finish hs _

/-- The steps after the body keep the link. -/
theorem commitStep_linked {e : CommitEvent} (h : s.commitStep c tx phase e = some s')
    (htx : tx.Sound) (hp : phase.Linked c s.sessions s.stage tx) :
    LinkedSince c s.sessions s' := by
  unfold System.commitStep at h
  split at h
  · cases h
    exact settleFailure_linked htx hp _ _
  · cases h
    exact finishTimedOutUpload_linked htx (hp.elim And.right Attached.stage) _ _
  · cases h
    exact precommit_linked htx hp _ _ _
  · cases h
    exact replay_linked htx hp _
  · cases h
    exact startCommit_linked htx hp _ _ _
  · exact commit_linked h htx hp.2
  · cases h
    exact recordCommit_linked _ _ _
  · cases h
    exact .finish (persistTerminal_sessions c s _ tx 0 rfl _) tx
  · cases h

theorem removeFileIfIdentity_sessions (s : System) (key : UploadSessionKey)
    (want : FileIdentity) (f : Option UnlinkFault) :
    (s.removeFileIfIdentity key want f).2.sessions = s.sessions := by
  unfold System.removeFileIfIdentity
  split
  · rfl
  · split_ifs
    · rfl
    · split <;> rfl

theorem reset_linked (htx : tx.Sound) (rej : Bool) (f : Option RollbackFault) :
    LinkedSince c s.sessions (s.reset c tx rej f) := by
  unfold System.reset
  split_ifs
  · exact .finish .same tx
  split
  · exact .afterReset .same htx rej
  rename_i session expiresAt hg
  split_ifs
  · exact .finish .same tx
  split
  · exact .enter .same htx trivial
  rename_i fid hid
  rw [← removeFileIfIdentity_sessions s (c.key tx.request.owner) fid (unlinkFault f)]
  split
  · rename_i s' hrm
    rw [hrm]
    exact .finish .same tx
  · rename_i s' hrm
    rw [hrm]
    exact .enter .same htx trivial

/-- The steps of a rollback keep the link. -/
theorem rollbackStep_linked {f : Option RollbackFault}
    (h : s.rollbackStep c tx f phase = some s') (htx : tx.Sound) :
    LinkedSince c s.sessions s' := by
  unfold System.rollbackStep at h
  split at h
  · rename_i rst
    rw [← removeFileIfIdentity_sessions s (c.key tx.request.owner) tx.file (unlinkFault f)]
    cases h
    cases rst with
    | true => exact .rollBack .same htx false
    | false => exact .finish .same tx
  · cases h
    exact reset_linked htx _ _
  · cases h
    unfold System.removeRow
    simp only
    split
    · split_ifs
      · exact .finish (.erase _) tx
      · exact .finish .same tx
    · exact .finish .same tx
    · split_ifs
      · exact .afterReset (.erase _) htx _
      · exact .finish .same tx
  · cases h

/-! ## Every step -/

/-- Recovery makes no session own a stage. -/
theorem Owns.of_recovered {lim : UploadLimits}
    (hr : recoverUploadSessions lim now t = .ok t') (h : Owns c t' key session) :
    Owns c t key session := by
  obtain ⟨⟨expiresAt, hg⟩, hp, hl⟩ := h
  obtain ⟨exp, -, hrc⟩ := recoverUploadSessions_get hr
  rw [hrc] at hg
  obtain ⟨row, hrw, heq⟩ := Option.map_eq_some_iff.mp hg
  obtain rfl : (row.recover exp).session = session := congrArg UploadRow.session heq
  rw [UploadRow.session_recover hl] at hp ⊢
  exact ⟨⟨row.expiresAtMs, hrw⟩, hp, UploadRow.session_recover hl ▸ hl⟩

theorem taskStep_linked {e : Event} (h : s.taskStep c task e = some s')
    (ht : task.Linked c s.sessions s.stage) : LinkedSince c s.sessions s' := by
  unfold System.taskStep at h
  split at h
  · split at h
    · exact openStep_linked h ht.1 ht.2
    · exact prepareStep_linked h ht
  · split at h
    · exact transferStep_linked h ht.1 ht.2
    · cases h
  · split at h
    · exact commitStep_linked h ht.1 ht.2
    · cases h
  · split at h
    · exact rollbackStep_linked h ht.1
    · cases h
  · cases h

/-- Rows that do not own the stage come and go. -/
theorem Linked.elsewhere (h : Linked c s)
    (hs : ∀ key session, Owns c t key session → Owns c s.sessions key session)
    (hk : ∀ key row, s.sessions.get key = some row → c.owns row = true → t.get key = some row) :
    LinkedSince c s.sessions { s with sessions := t } :=
  ⟨.fewer hs, fun task ht => (h.task task ht).kept hk⟩

theorem ne_of_all_not_owns {row : UploadRow Path}
    (h : (t.get key).all (fun row => !c.owns row) = true) (hg : t.get key' = some row)
    (ho : c.owns row = true) : key' ≠ key := by
  rintro rfl
  simp [hg, ho] at h

/-- Other requests store and remove rows that are not of this stage. -/
theorem sessions_elsewhere {e : Event} (hs : s.step c e = some s')
    (he : (∃ key row, e = .storeElsewhere key row) ∨ ∃ key, e = .removeElsewhere key) :
    ∃ sessions, s' = { s with sessions := sessions } ∧
      (∀ key session, Owns c sessions key session → Owns c s.sessions key session) ∧
      ∀ key row, s.sessions.get key = some row → c.owns row = true →
        sessions.get key = some row := by
  obtain ⟨key, row, rfl⟩ | ⟨key, rfl⟩ := he
  · simp only [System.step, Option.ite_none_right_eq_some, Option.some.injEq] at hs
    obtain ⟨⟨hp, hf⟩, rfl⟩ := hs
    refine ⟨_, rfl, fun key' session ho => ?_, fun key' row' hg how => ?_⟩
    · obtain ⟨-, rfl⟩ | ⟨-, hold⟩ := ho.of_put
      · exact absurd ho.stagePath hp
      · exact hold
    · exact Table.get_put_of_ne hg (ne_of_all_not_owns hf hg how)
  · simp only [System.step, Option.ite_none_right_eq_some, Option.some.injEq] at hs
    obtain ⟨hf, rfl⟩ := hs
    refine ⟨_, rfl, fun key' session ho => ho.of_erase.2, fun key' row' hg how => ?_⟩
    simp [ne_of_all_not_owns hf hg how, hg]

theorem Linked.since {e : Event} (h : Linked c s) (hs : s.step c e = some s') :
    LinkedSince c s.sessions s' := by
  cases e with
  | request r =>
    simp only [System.step, Option.ite_none_right_eq_some, Option.some.injEq] at hs
    obtain ⟨-, rfl⟩ := hs
    exact ⟨.same, fun task ht => by cases ht; trivial⟩
  | prepare | transfer | commit | rollback =>
    obtain ⟨task, ht, hs⟩ := System.exists_task_of_match hs
    exact taskStep_linked hs (h.task task ht)
  | orphan index bytes =>
    simp only [System.step, System.landOrphan, Option.map_eq_some_iff] at hs
    obtain ⟨orphan, -, rfl⟩ := hs
    exact ⟨.same, h.task⟩
  | orphanFails index | target entry =>
    cases hs
    exact ⟨.same, h.task⟩
  | storeElsewhere | removeElsewhere =>
    obtain ⟨sessions, rfl, ho, hk⟩ := sessions_elsewhere hs (by simp)
    exact h.elsewhere ho hk
  | crash keep tail =>
    simp only [System.step, Option.ite_none_right_eq_some, Option.some.injEq] at hs
    obtain ⟨-, rfl⟩ := hs
    exact .idle .same rfl
  | restart now =>
    simp only [System.step, Option.ite_none_right_eq_some] at hs
    obtain ⟨sessions, hr, -, rfl⟩ := restart_eq_some hs.2
    exact .idle (.fewer fun key session ho => ho.of_recovered hr) hs.1.2

/-- Every step keeps the link between the request, the session and the stage. -/
theorem Linked.step {e : Event} (h : Linked c s) (hs : s.step c e = some s') : Linked c s' :=
  ⟨(h.since hs).sessions.rows h.rows, (h.since hs).task⟩

/-- The link holds in every reachable state. -/
theorem reachable_linked {tgt : Option TargetEntry} {ok : System → Event → Prop}
    (h : (machine c tgt).Reachable ok s) : Linked c s := by
  induction h with
  | init =>
    refine ⟨?_, fun task ht => by cases ht⟩
    have hn : ∀ key session, ¬ Owns c (.empty : UploadSessions Path) key session := by
      rintro key session ⟨⟨expiresAt, hg⟩, -, -⟩
      cases hg
    exact ⟨fun key session ho => absurd ho (hn _ _), fun key session ho => absurd ho (hn _ _),
      fun key session ho => absurd ho (hn _ _), fun key _ session _ ho => absurd ho (hn _ _)⟩
  | step _ _ hs ih => exact ih.step hs

end DufsRam.Upload
