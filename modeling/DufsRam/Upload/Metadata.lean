import DufsRam.Upload.Footprint
import DufsRam.Upload.Linked

/-!
# Replayed metadata and create-only publications

Before a replacing upload is committed, the metadata of the target is put on its stage. A
later `NoReplace` request must not publish such a stage. The session is what tells it: a
confirmation is refused if the session has a target revision, and a running session is taken
to be one whose stage no replay has touched.

Between the replay and the record of the commit the session does not tell yet. A request that
ends there leaves a stage with foreign metadata behind a session that looks create-only.

Results:
* `Unmarked.step`: every step keeps the stages of such sessions free of replayed metadata,
  if it is `Careful`.
* `create_only_unmarked`: no create-only publication carries replayed metadata in a run of
  such steps.
-/

namespace DufsRam.Upload

open StateStore RootedFs

/-! ## The invariant -/

/-- The request goes on with a session whose stage a `NoReplace` request may publish. -/
def Preparation.CreateOnly (p : Preparation) : Prop :=
  ∀ checkpoint ∈ p.checkpoint, checkpoint.state = .awaitingConfirmation →
    checkpoint.targetRevision = none

/-- The phases in which the stage may carry metadata that the session does not show. -/
def Phase.exposed : Phase → Bool
  | .starting | .resetting _ => true
  | _ => false

theorem Phase.beforeReplay_of_exposed {phase : Phase} (h : phase.exposed = true) :
    phase.beforeReplay = false := by
  cases phase with
  | starting | resetting => rfl
  | _ => cases h

/-- What a request knows of the metadata on its stage. -/
def Task.Unmarked (s : System) : Task → Prop
  | .looking _ | .inspecting _ _ | .preserving _ _ => True
  | .creating p | .reopening p => p.targetIdentity = .missing → p.CreateOnly
  | .transaction tx phase =>
    (tx.targetIdentity = .missing → tx.CreateOnly) ∧
      (tx.CreateOnly → phase.beforeReplay = true ∨ tx.targetIdentity = .missing →
        (s.files tx.file).applied = [])

/-- The session is that of a request between the replay and the record of the commit, or
    between the replay and the removal of the stage. -/
def Exposed (c : Config) (task : Option Task) (key : UploadSessionKey)
    (session : StoredUploadSession Path) (i : FileIdentity) : Prop :=
  ∃ tx phase, task = some (.transaction tx phase) ∧ phase.exposed = true ∧ tx.file = i ∧
    tx.CreateOnly ∧ key = c.key tx.request.owner ∧ session.targetPath = c.targetPath

/-- Only the stage of a request that is at work carries metadata its session does not
    show. -/
structure Unmarked (c : Config) (s : System) : Prop where
  rows : ∀ key session i, Owns c s.sessions key session → isCreateOnly session = true →
    session.stageIdentity = some i → s.stage = some i →
    (s.files i).applied = [] ∨ Exposed c s.task key session i
  task : ∀ task ∈ s.task, task.Unmarked s
  published : ∀ p ∈ s.published, p.createOnly = true → p.applied = []

/-- The failures that do not end a request while the stage carries metadata that its session
    does not show: a confirmation does not fail at the replay or at the space check after it,
    a rollback gets as far as the removal of the stage, and the server does not stop. -/
def Careful (s : System) : Event → Prop
  | .commit (.replay (.failed true)) => ∀ tx phase, s.task = some (.transaction tx phase) →
      tx.awaiting = true → tx.CreateOnly → tx.targetMetadata = none
  | .commit (.start false _ _) => ∀ tx phase, s.task = some (.transaction tx phase) →
      tx.awaiting = true → tx.CreateOnly → (s.files tx.file).applied = []
  | .rollback fault => ∀ tx thenReject, s.task = some (.transaction tx (.resetting thenReject)) →
      tx.CreateOnly → (s.files tx.file).applied = [] ∨
        (fault ≠ some .load ∧ fault ≠ some (.unlink .fails))
  | .crash _ _ => ∀ tx phase, s.task = some (.transaction tx phase) → phase.exposed = true →
      tx.CreateOnly → (s.files tx.file).applied = []
  | _ => True

/-! ## Steps that do not replay -/

variable {s s' : System} {c : Config} {now : ℤ} {tx tx' : UploadTransaction}
  {revision : Option (Option Digest)} {durableOffset : ℕ} {fault : Option PersistFault}

/-- The session of a confirmation does not become a running one. -/
theorem Attached.not_admitted {ses : UploadSessions Path} {stg : Option FileIdentity}
    {rev : Option Digest} (h : Attached c ses stg tx)
    (haw : tx.awaiting = true) :
    ¬ Admitted (swept ses now) (c.key tx.request.owner)
      (c.sessionOf tx .running durableOffset rev) := by
  intro had
  obtain ⟨revision, exp, hg, -⟩ := h.row
  have hm := had.merges _ (get_swept hg tx.rowState_isTerminal)
  have hs : tx.rowState = .awaitingConfirmation := by simp [UploadTransaction.rowState, haw]
  obtain ⟨hsm, -⟩ | ha := hm.transition
  · rw [show (c.sessionOf tx tx.rowState tx.initialOffset revision).state = tx.rowState from rfl,
      hs] at hsm
    cases hsm
  · rw [show (c.sessionOf tx tx.rowState tx.initialOffset revision).state = tx.rowState from rfl,
      hs] at ha
    cases ha

/-! ### The functions -/

section Functions

variable {c : Config} {s s' : System} {tx : UploadTransaction} {phase : Phase}

theorem Preparation.createOnly_of_awaiting (h : tx.awaiting = false) : tx.CreateOnly := by
  intro cp hm hs
  have : tx.awaiting = true := by
    rw [Option.mem_def] at hm
    simp [UploadTransaction.awaiting, hm, hs]
  rw [h] at this
  cases this

theorem persistTerminal_passes (now : ℤ) (durableOffset : ℕ) {st : StoredUploadState}
    (fault : Option StoreFault) (hs : st.isTerminal = true) :
    Passes c tx.file s (s.persistTerminal c now tx durableOffset st fault) := by
  have hf := (persistTerminal_walked s c now tx durableOffset hs fault).frame trivial
  have hpd := persistState_persisted s c now (c.key tx.request.owner)
    tx.request.uploadLength none durableOffset st none fault
  unfold System.persistTerminal at hf ⊢
  generalize (s.persistState c now (c.key tx.request.owner) tx.request.uploadLength none
    durableOffset st none fault).2 = s' at hf hpd ⊢
  generalize (s.persistState c now (c.key tx.request.owner) tx.request.uploadLength none
    durableOffset st none fault).1 = ok at hpd
  refine .of_frame hf (fun i hi => ?_) fun key sess ho => ?_
  · rw [hpd.frame] at hi
    exact hi
  cases hpd with
  | refused => exact ho
  | swept => exact ho.of_swept
  | stored _ exp ha =>
    obtain ⟨-, rfl⟩ | ⟨-, hold⟩ := ho.of_put
    · have hl : st.isTerminal = false := ho.live
      rw [hs] at hl
      cases hl
    · exact hold.of_swept

/-- The record after a commit. A refused `NoReplace` commit leaves a session without a target
    revision. -/
theorem recordCommit_continues (rec : CommitRecord) (now : ℤ) (fault : Option PersistFault)
    (htx : tx.Sound) (hc : tx.targetIdentity = .missing → (s.files tx.file).applied = []) :
    Continues c tx phase s (s.recordCommit c tx rec now fault) := by
  cases rec with
  | committed | unknown => exact .finish (persistTerminal_passes now _ _ rfl)
  | awaitingConfirmation =>
    cases hp : s.persistAwaitingConfirmation c now tx fault with
    | mk ok out =>
      have hps := persistStage_passes hp fun rev hr _ hcr => by
        obtain rfl := hr _ rfl
        refine hc (htx.noReplace ?_).1
        cases ho : tx.request.overwrite with
        | noReplace => rfl
        | ifUnchanged revision =>
          simp [isCreateOnly, Config.sessionOf, UploadTransaction.targetRevision, ho,
            UploadOverwritePolicy.revision] at hcr
      simp only [System.recordCommit, hp]
      exact .finish hps

theorem removeFileIfIdentity_passes (c : Config) (tx : UploadTransaction) (s : System)
    (key : UploadSessionKey) (want : FileIdentity) (fault : Option UnlinkFault) :
    Passes c tx.file s (s.removeFileIfIdentity key want fault).2 := by
  have hw : Walked True c s tx _ tx := removeFileIfIdentity_walked s c tx key want fault
  refine .of_frame (hw.frame trivial) (fun i hi => ?_) fun key' sess ho => ?_
  · obtain hs | hs := hw.stage
    · exact hs ▸ hi
    · rw [hs] at hi
      cases hi
  · rwa [removeFileIfIdentity_sessions] at ho

/-- The recorded stage stays only if its removal fails. -/
theorem eq_fails_of_removeFileIfIdentity {key : UploadSessionKey} {fid : FileIdentity}
    {fault : Option RollbackFault}
    (h : (s.removeFileIfIdentity key fid (unlinkFault fault)).2.stage = some fid) :
    fault = some (.unlink .fails) := by
  unfold System.removeFileIfIdentity at h
  split at h
  · rename_i hn
    rw [hn] at h
    cases h
  rename_i actual ha
  split_ifs at h with hne
  · rw [ha] at h
    exact absurd (Option.some.inj h) hne
  split at h
  · cases h
  · rename_i hf
    revert hf
    unfold unlinkFault
    split <;> simp
  · cases h

end Functions

/-! ## Keeping the stages unmarked -/

section Keeping

variable {c : Config} {s s' : System} {tx tx' : UploadTransaction} {phase phase' : Phase}

theorem Task.Unmarked.same (h : (Task.transaction tx phase).Unmarked s) (hs : Same tx tx')
    (ha : (s'.files tx.file).applied = (s.files tx.file).applied)
    (hp : phase'.beforeReplay = true → phase.beforeReplay = true) :
    (Task.transaction tx' phase').Unmarked s' := by
  simp only [Task.Unmarked] at h ⊢
  rw [hs.preparation, hs.file, ha]
  exact ⟨h.1, fun hcr hc => h.2 hcr (hc.imp_left hp)⟩

/-- A step without a replay, if it leaves no session behind whose stage is marked. -/
theorem Unmarked.passes {file : FileIdentity} (h : Unmarked c s) (hp : Passes c file s s')
    (he : ∀ key sess i, Owns c s'.sessions key sess → isCreateOnly sess = true →
      sess.stageIdentity = some i → s'.stage = some i → Exposed c s.task key sess i →
      (s.files i).applied = [] ∨ Exposed c s'.task key sess i)
    (ht : ∀ task ∈ s'.task, task.Unmarked s') : Unmarked c s' := by
  refine ⟨fun key sess i ho hcr hid hs => ?_, ht, ?_⟩
  · rw [hp.applied]
    obtain hold | ⟨hn, ha⟩ := hp.rows key sess ho hcr
    · obtain ha | hw := h.rows key sess i hold hcr hid (hp.stage i hs)
      · exact Or.inl ha
      · exact he key sess i ho hcr hid hs hw
    · rw [hid] at hn
      cases hn
      exact Or.inl ha
  · rw [hp.published]
    exact h.published

theorem Exposed.eq {key : UploadSessionKey} {sess : StoredUploadSession Path} {i : FileIdentity}
    (h : Exposed c s.task key sess i) (ht : s.task = some (.transaction tx phase)) :
    phase.exposed = true ∧ tx.file = i ∧ tx.CreateOnly ∧ key = c.key tx.request.owner ∧
      sess.targetPath = c.targetPath := by
  obtain ⟨tx₁, ph₁, ht₁, hp, hf, hcr, hk, htg⟩ := h
  rw [ht] at ht₁
  cases ht₁
  exact ⟨hp, hf, hcr, hk, htg⟩

/-- A request that goes on outside of the exposed phases. -/
theorem Unmarked.continues (h : Unmarked c s) (ht : s.task = some (.transaction tx phase))
    (hp : phase.exposed = false) (hc : Continues c tx phase s s') : Unmarked c s' := by
  refine h.passes hc.passes (fun key sess i _ _ _ _ hw => ?_) fun task ht' => ?_
  · rw [(hw.eq ht).1] at hp
    cases hp
  · obtain ⟨tx', phase', rfl, hs, hm⟩ := hc.task task ht'
    exact (h.task _ ht).same hs (hc.passes.applied _) hm

/-- A request that goes on in an exposed phase. -/
theorem Unmarked.stays (h : Unmarked c s) (ht : s.task = some (.transaction tx phase))
    (hp : Passes c tx.file s s') (hs : Same tx tx')
    (ht' : s'.task = some (.transaction tx' phase')) (hph : phase'.exposed = true) :
    Unmarked c s' := by
  have hb := Phase.beforeReplay_of_exposed hph
  refine h.passes hp (fun key sess i _ _ _ _ hw => ?_) fun task hm => ?_
  · obtain ⟨-, hf, hcr, hk, htg⟩ := hw.eq ht
    refine Or.inr ⟨tx', phase', ht', hph, hs.file.trans hf, ?_, ?_, htg⟩
    · rw [hs.preparation]
      exact hcr
    · rw [hs.preparation]
      exact hk
  · rw [ht'] at hm
    cases hm
    exact (h.task _ ht).same hs (hp.applied _) (by simp [hb])

theorem Unmarked.rollBack {s₁ : System} (h : Unmarked c s)
    (ht : s.task = some (.transaction tx phase)) (hp : Passes c tx.file s s₁)
    (hs : Same tx tx') (rej : Bool) : Unmarked c (s₁.rollBack tx' rej) := by
  have hc : Continues c tx phase s (s₁.rollBack tx' rej) := .rollBack hp hs
  have hs' : Same tx { tx' with queued := [] } := ⟨hs.preparation, hs.file⟩
  have ht' : (s₁.rollBack tx' rej).task =
    some (.transaction { tx' with queued := [] } (.resetting rej)) := rfl
  exact h.stays ht hc.passes hs' ht' rfl

/-- What the session of an open stage says of the request. -/
theorem Attached.exposed (h : Attached c s.sessions s.stage tx) (hr : RowsSound c s.sessions)
    {key : UploadSessionKey} {sess : StoredUploadSession Path}
    (ho : Owns c s.sessions key sess) (hcr : isCreateOnly sess = true) :
    key = c.key tx.request.owner ∧ sess.targetPath = c.targetPath ∧ tx.CreateOnly := by
  obtain ⟨rev, exp, hg, hrv⟩ := h.row
  obtain ⟨rev', ho'⟩ := h.owns
  obtain rfl := hr.unique _ _ _ _ ho ho'
  obtain rfl := ho.eq hg
  refine ⟨rfl, rfl, fun cp hm hs => ?_⟩
  rw [Option.mem_def] at hm
  have haw : tx.awaiting = true := by simp [UploadTransaction.awaiting, hm, hs]
  have hn : rev = none := by
    simpa [isCreateOnly, Config.sessionOf, UploadTransaction.rowState, haw] using hcr
  have := hrv haw
  rw [hm, hn] at this
  exact this

theorem isCreateOnly_of_createOnly {durableOffset : ℕ} {rev : Option Digest} (hcr : tx.CreateOnly)
    (hr : tx.awaiting = true →
      tx.checkpoint.bind UploadCheckpoint.targetRevision = rev) :
    isCreateOnly (c.sessionOf tx tx.rowState durableOffset rev) = true := by
  cases haw : tx.awaiting with
  | false => simp [isCreateOnly, Config.sessionOf, UploadTransaction.rowState, haw]
  | true =>
    have hs := haw
    simp only [UploadTransaction.awaiting, decide_eq_true_iff, Option.map_eq_some_iff] at hs
    obtain ⟨cp, hcp, hs⟩ := hs
    have hn := hr haw
    rw [hcp, Option.bind_some, hcr cp hcp hs] at hn
    simp [isCreateOnly, Config.sessionOf, UploadTransaction.rowState, haw, ← hn]

/-! ### The exposed steps -/

/-- The replay. A failed one ends a confirmation and rolls anything else back. -/
theorem replay_unmarked (r : ReplayResult) (h : Unmarked c s) (hl : Linked c s)
    (ht : s.task = some (.transaction tx .replaying))
    (hc : Careful s (.commit (.replay r))) : Unmarked c (s.replay tx r) := by
  obtain ⟨htx, ha⟩ := hl.task _ ht
  obtain ⟨hms, hcl⟩ := h.task _ ht
  -- The stage is marked, and its session is that of the request.
  have hmr : ∀ (md : PreservedFileMetadata) (phase' : Phase) (tx' : UploadTransaction)
      (s' : System), tx.targetMetadata = some md → phase'.exposed = true → Same tx tx' →
      s'.sessions = s.sessions → s'.stage = s.stage → s'.published = s.published →
      s'.task = some (.transaction tx' phase') → Unmarked c s' := by
    intro md phase' tx' s' hm hp hs hss hst hpb ht'
    refine ⟨fun key sess i ho hcr _ hi => ?_, fun task hmm => ?_, ?_⟩
    · rw [hss] at ho
      rw [hst, ha.stage] at hi
      obtain ⟨hk, htg, hon⟩ := ha.exposed hl.rows ho hcr
      refine Or.inr ⟨tx', phase', ht', hp, hs.file.trans (Option.some.inj hi), ?_, ?_, htg⟩
      · rw [hs.preparation]
        exact hon
      · rw [hs.preparation]
        exact hk
    · rw [ht'] at hmm
      cases hmm
      simp only [Task.Unmarked]
      rw [hs.preparation]
      refine ⟨hms, fun _ hb => ?_⟩
      obtain hb | hid := hb
      · rw [Phase.beforeReplay_of_exposed hp] at hb
        cases hb
      · rw [(htx.noReplace (htx.missing hid)).2] at hm
        cases hm
    · rw [hpb]
      exact h.published
  unfold System.replay
  split
  · exact h.continues ht rfl (.enter (.refl s) (.refl tx) (by simp [Phase.beforeReplay]))
  · rename_i md hm
    exact hmr md .starting tx _ hm rfl (.refl tx) rfl rfl rfl rfl
  rename_i md chg hm
  cases haw : tx.awaiting with
  | false =>
    have hs : Same tx { tx with queued := [] } := ⟨rfl, rfl⟩
    cases chg with
    | false => exact h.rollBack ht (.refl s) (.refl tx) false
    | true => exact hmr md (.resetting false) _ _ hm rfl hs rfl rfl rfl rfl
  | true =>
    cases chg with
    | false => exact h.continues ht rfl (.finish (.refl s))
    | true =>
      refine ⟨fun key sess i ho hcr _ _ => ?_, by simp [System.finish], h.published⟩
      obtain ⟨-, -, hon⟩ := ha.exposed hl.rows ho hcr
      rw [hc tx _ ht haw hon] at hm
      cases hm

/-- The space check and the record of the commit. -/
theorem startCommit_unmarked (spc : Bool) (now : ℤ) (fault : Option PersistFault)
    (h : Unmarked c s) (ht : s.task = some (.transaction tx .starting))
    (hca : Careful s (.commit (.start spc now fault))) :
    Unmarked c (s.startCommit c tx spc now fault) := by
  unfold System.startCommit
  split_ifs with hsp haw
  · have hc : Continues c tx .starting s (s.finish tx) := .finish (.refl s)
    refine h.passes hc.passes (fun key sess i _ _ _ _ hw => ?_) (by simp [System.finish])
    obtain ⟨-, rfl, hcr, -⟩ := hw.eq ht
    obtain rfl : spc = false := by simpa using hsp
    exact Or.inl (hca tx _ ht haw hcr)
  · exact h.rollBack ht (.refl s) (.refl tx) false
  · cases hpr : s.persistCommitStarted c now tx fault with
    | mk ok out =>
      obtain ⟨s₁, tx₁⟩ := out
      have hp : Passes c tx.file s s₁ := persistStage_passes hpr fun _ _ _ hcr => by
        simp [isCreateOnly, Config.sessionOf] at hcr
      obtain ⟨⟨cursor, queued, rfl⟩, -, -, hst⟩ := persistStage_linked hpr
      have hs : Same tx { tx with cursor := cursor, queued := queued } := ⟨rfl, rfl⟩
      cases ok with
      | false => exact h.rollBack ht hp hs false
      | true =>
        have hc : Continues c tx .starting s (s₁.enter
            { tx with cursor := cursor, queued := queued } .committing) :=
          .enter hp hs (by simp [Phase.beforeReplay])
        refine h.passes hc.passes (fun key sess i ho hcr _ _ hw => ?_) fun task hmm => ?_
        · -- The session of the request says now that the commit has started.
          obtain ⟨-, -, -, rfl, -⟩ := hw.eq ht
          obtain ⟨rev, exp, hg⟩ := hst rfl
          obtain rfl := ho.eq hg
          simp [isCreateOnly, Config.sessionOf] at hcr
        · obtain ⟨tx', phase', rfl, hs', hm⟩ := hc.task task hmm
          exact (h.task _ ht).same hs' (hc.passes.applied _) hm

/-- The answers of a commit. -/
theorem afterCommit_continues {s₁ : System} (hp : Passes c tx.file s s₁) (out : ReplaceOutcome) :
    Continues c tx phase s (s₁.afterCommit tx out) := by
  cases out with
  | published | rejected | publishedDurabilityUnknown =>
    exact .enter hp (.refl tx) (by simp [Phase.beforeReplay])
  | notPublished => exact .rollBack hp (.refl tx)

/-- The commit. What it publishes under the create-only policy is unmarked. -/
theorem commit_unmarked {spc : Bool} {r : CommitResult}
    (hc : s.commit c tx spc r = some s') (h : Unmarked c s)
    (ht : s.task = some (.transaction tx .committing)) : Unmarked c s' := by
  unfold System.commit at hc
  split_ifs at hc
  · cases hc
    exact h.continues ht rfl (.rollBack (.refl s) (.refl tx))
  split at hc
  · cases hc
    exact h.continues ht rfl (afterCommit_continues (.refl s) _)
  rename_i attributes xattrs _
  cases hc
  obtain ⟨hms, hcl⟩ := h.task _ ht
  have hpb : Unmarked c (s.publish c tx attributes xattrs) := by
    refine ⟨fun _ _ i _ _ _ hi => ?_, fun task hm => ?_, fun p hp hcr => ?_⟩
    · cases hi
    · have := h.task task hm
      rw [show (s.publish c tx attributes xattrs).task = s.task from rfl, ht] at hm
      cases hm
      exact this
    · obtain rfl | hold := List.mem_cons.mp hp
      · have hid : tx.targetIdentity = .missing := by simpa using hcr
        exact hcl (hms hid) (Or.inr hid)
      · exact h.published p hold hcr
  exact hpb.continues ht rfl (afterCommit_continues (.refl _) _)

/-- The removal of the stage. It is the last chance to get rid of a marked one. -/
theorem reset_unmarked (rej : Bool) (fault : Option RollbackFault) (h : Unmarked c s)
    (ht : s.task = some (.transaction tx (.resetting rej)))
    (hca : Careful s (.rollback fault)) : Unmarked c (s.reset c tx rej fault) := by
  have hl : ∀ s', Continues c tx (.resetting rej) s s' →
      (∀ sess i, Owns c s'.sessions (c.key tx.request.owner) sess →
        isCreateOnly sess = true → sess.targetPath = c.targetPath →
        sess.stageIdentity = some i → s'.stage = some i → tx.file = i →
        tx.CreateOnly → (s.files i).applied = []) → Unmarked c s' := by
    intro s' hct hc
    refine h.passes hct.passes (fun key sess i ho hcr hid hs hw => ?_) fun task hmm => ?_
    · obtain ⟨-, hf, hon, rfl, htg⟩ := hw.eq ht
      exact Or.inl (hc sess i ho hcr htg hid hs hf hon)
    · obtain ⟨tx', phase', rfl, hsa, hm⟩ := hct.task task hmm
      exact (h.task _ ht).same hsa (hct.passes.applied _) hm
  unfold System.reset
  by_cases hld : fault = some .load
  · rw [if_pos hld]
    refine hl _ (.finish (.refl s)) fun sess i _ _ _ _ _ hf hon => ?_
    subst hf
    exact (hca tx rej ht hon).resolve_right fun h => h.1 hld
  rw [if_neg hld]
  split
  · rename_i hg
    refine hl _ (.afterReset (.refl s)) fun sess i ho _ _ _ _ _ _ => ?_
    obtain ⟨exp, hsm⟩ := ho.stored
    rw [show (s.afterReset tx rej).sessions = s.sessions by cases rej <;> rfl, hg] at hsm
    cases hsm
  rename_i sess exp hg
  split_ifs with hb
  · refine hl _ (.finish (.refl s)) fun sess' i ho _ htg _ _ _ _ => ?_
    rw [← ho.eq hg, Bool.not_eq_true', Config.binds_iff.mpr ⟨htg, ho.stagePath⟩] at hb
    cases hb
  split
  · rename_i hid
    refine hl _ (.enter (.refl s) (.refl tx) (by simp [Phase.beforeReplay]))
      fun sess' i ho _ _ hid' _ _ _ => ?_
    rw [ho.eq hg, hid] at hid'
    cases hid'
  · rename_i fid hid
    have hp := removeFileIfIdentity_passes c tx s (c.key tx.request.owner) fid (unlinkFault fault)
    have hss := removeFileIfIdentity_sessions s (c.key tx.request.owner) fid (unlinkFault fault)
    have hc : ∀ s' : System, s'.sessions = s.sessions →
        s'.stage = (s.removeFileIfIdentity (c.key tx.request.owner) fid
          (unlinkFault fault)).2.stage →
        ∀ sess' i, Owns c s'.sessions (c.key tx.request.owner) sess' →
          isCreateOnly sess' = true → sess'.targetPath = c.targetPath →
          sess'.stageIdentity = some i → s'.stage = some i → tx.file = i →
          tx.CreateOnly → (s.files i).applied = [] := by
      intro s' hss' hs' sess' i ho _ _ hid' hs hf hon
      rw [hss'] at ho
      rw [ho.eq hg, hid] at hid'
      cases hid'
      subst hf
      rw [hs'] at hs
      exact (hca tx rej ht hon).resolve_right fun h =>
        h.2 (eq_fails_of_removeFileIfIdentity hs)
    split
    · rename_i s₁ hrm
      rw [hrm] at hp hss hc
      exact hl _ (.finish hp) (hc _ hss rfl)
    · rename_i s₁ hrm
      rw [hrm] at hp hss hc
      exact hl _ (.enter hp (.refl tx) (by simp [Phase.beforeReplay])) (hc _ hss rfl)

/-! ### Preparation -/

theorem Unmarked.idle (h : Unmarked c s) (hi : ∀ tx phase, s.task ≠ some (.transaction tx phase))
    {t : Option Task} (ht : ∀ task ∈ t, task.Unmarked s) : Unmarked c { s with task := t } := by
  refine ⟨fun key sess i ho hcr hid hs => ?_, ht, h.published⟩
  refine Or.inl ((h.rows key sess i ho hcr hid hs).resolve_right ?_)
  rintro ⟨tx, phase, hts, -⟩
  exact hi tx phase hts

variable {task : Task}

theorem unmarked_of_afterChecks {r : UploadRequest} {rec : Option UploadCheckpoint}
    {fid : ReplacementTargetIdentity} {md : Option PreservedFileMetadata}
    (h : Task.afterChecks r rec fid md = some task)
    (hcr : fid = .missing → ∀ cp ∈ rec,
      cp.state = .awaitingConfirmation → cp.targetRevision = none) :
    task.Unmarked s := by
  unfold Task.afterChecks at h
  split_ifs at h
  split at h
  · cases h
    exact fun _ cp hm => by cases hm
  · cases h
    exact hcr

/-- A new stage is unmarked. -/
theorem createStage_unmarked {p : Preparation} {file : FileIdentity}
    (hcr : s.createStage p file = some s') (h : Unmarked c s)
    (hi : ∀ tx phase, s.task ≠ some (.transaction tx phase))
    (hp : p.targetIdentity = .missing → p.CreateOnly) : Unmarked c s' := by
  unfold System.createStage at hcr
  split_ifs at hcr
  · cases hcr
    exact h.idle hi (by simp)
  cases hcr
  refine ⟨fun key sess i _ _ _ hs => ?_, fun task hm => ?_, h.published⟩
  · cases hs
    exact Or.inl (by simp [System.enter, StageFile.new])
  · cases hm
    exact ⟨hp, fun _ _ => by simp [System.enter, StageFile.new]⟩

/-- The steps of a request that has no file. A reopened stage is that of the session which
    was looked up. -/
theorem prepareStep_unmarked {e : PrepareEvent} (hs : s.prepareStep c task e = some s')
    (h : Unmarked c s) (hln : Linked c s) (ht : s.task = some task)
    (he : ∀ tx phase, task ≠ .transaction tx phase) :
    Unmarked c s' := by
  have hi : ∀ tx phase, s.task ≠ some (.transaction tx phase) := by
    intro tx phase heq
    rw [ht] at heq
    exact he tx phase (Option.some.inj heq)
  have hw := h.task _ ht
  have hl := hln.task _ ht
  unfold System.prepareStep at hs
  split at hs
  · cases hs
  · cases hs
    exact h.idle hi (by simp)
  · cases hs
    refine h.idle hi fun task hm => ?_
    obtain ⟨rec, -, rfl⟩ := Option.map_eq_some_iff.mp hm
    trivial
  · rename_i r rec
    split at hs
    · cases hs
      refine h.idle hi fun task hm => ?_
      simp only [Option.mem_def, Option.ite_none_left_eq_some] at hm
      refine unmarked_of_afterChecks hm.2 fun _ cp hcp hst => ?_
      -- `NoReplace` refuses a confirmation whose session has a target revision.
      have hr := hm.1
      rw [Option.mem_def] at hcp
      simp only [refusesNoReplace, awaitingStageIsCreateOnly, hcp, Option.any_some, hst,
        decide_true, Bool.true_and, Bool.or_eq_true, not_or, Bool.not_eq_true',
        Bool.not_eq_false] at hr
      simpa using hr.2
    · cases hs
      refine h.idle hi fun task hm => ?_
      simp only [Option.mem_def, Option.ite_none_left_eq_some, Option.some.injEq] at hm
      obtain ⟨-, rfl⟩ := hm
      trivial
  · rename_i r rec
    split at hs
    · cases hs
      exact h.idle hi (by simp)
    rename_i fid md hmt
    cases hs
    refine h.idle hi fun task hm => ?_
    simp only [Option.mem_def, Option.ite_none_left_eq_some, not_not] at hm
    refine unmarked_of_afterChecks hm.2 fun hms => ?_
    have hrv := hm.1
    rw [hms] at hrv
    cases hp : r.overwrite with
    | noReplace => exact absurd hp hl.1
    | ifUnchanged want =>
      simp [hp, Config.targetRevision, UploadOverwritePolicy.revision] at hrv
  · exact createStage_unmarked hs h hi hw
  · rename_i p denied
    split at hs
    · cases hs
    rename_i cp hcp
    split at hs
    · cases hs
      exact h.idle hi (by simp)
    rename_i file hop
    cases hs
    have ha := attached_of_openResumableStage hcp (hl.2.2 _ hcp) hop p.request.initialOffset []
    refine h.idle hi fun task hm => ?_
    cases hm
    refine ⟨hw, fun hon _ => ?_⟩
    obtain ⟨rev, exp, hg, hrv⟩ := ha.row
    have ho : Owns c s.sessions _ _ :=
      ⟨⟨exp, hg⟩, rfl, UploadTransaction.rowState_isTerminal _⟩
    refine (h.rows _ _ file ho ?_ rfl ha.stage).resolve_right ?_
    · exact isCreateOnly_of_createOnly hon hrv
    · rintro ⟨tx, phase, heq, -⟩
      exact hi tx phase heq
  · cases hs

/-! ### Every step -/

/-- Up to the replay a confirmation has a session, which does not become a running one, and any
    other request works on a file without replayed metadata. -/
theorem Unmarked.clean (h : Unmarked c s) (hl : Linked c s)
    (ht : s.task = some (.transaction tx phase)) (hb : phase.beforeReplay = true) :
    Clean c s tx := by
  intro now durableOffset rev ha
  obtain ⟨htx, hp⟩ := hl.task _ ht
  cases haw : tx.awaiting with
  | false =>
    exact (h.task _ ht).2 (Preparation.createOnly_of_awaiting haw) (Or.inl hb)
  | true =>
    have hf : tx.request.mode ≠ .fresh := fun hf => by
      rw [htx.awaiting_eq_false hf] at haw
      cases haw
    have hat : Attached c s.sessions s.stage tx := by
      cases phase with
      | initialCheckpoint => exact absurd hp.1 hf
      | rebinding => exact hp.2
      | timedOut => exact hp.resolve_left fun h => hf h.1
      | truncating | reserving | transferring | transferFailed | transferred | replaying =>
        exact hp
      | _ => cases hb
    exact absurd ha (hat.not_admitted haw)

theorem Unmarked.moved {framed : Prop} (h : Unmarked c s) (hl : Linked c s)
    (ht : s.task = some (.transaction tx phase)) (hb : phase.beforeReplay = true)
    (hm : Moved framed c s tx phase s') : Unmarked c s' := by
  refine h.continues ht ?_ (hm.continues (h.clean hl ht hb))
  by_contra he
  rw [Phase.beforeReplay_of_exposed (Bool.of_not_eq_false he)] at hb
  cases hb

theorem rollbackStep_unmarked {fault : Option RollbackFault}
    (hs : s.rollbackStep c tx fault phase = some s') (h : Unmarked c s)
    (ht : s.task = some (.transaction tx phase)) (hc : Careful s (.rollback fault)) :
    Unmarked c s' := by
  have hf : ∀ key, Passes c tx.file s (s.forget key) := fun _ =>
    .of_frame ⟨rfl, rfl, fun _ => rfl⟩ (fun _ h => h) fun _ _ ho => ho.of_erase.2
  unfold System.rollbackStep at hs
  split at hs
  · rename_i rst
    have hr := removeFileIfIdentity_passes c tx s (c.key tx.request.owner) tx.file
      (unlinkFault fault)
    cases hs
    cases rst with
    | true => exact h.continues ht rfl (.rollBack hr (.refl tx))
    | false => exact h.continues ht rfl (.finish hr)
  · cases hs
    exact reset_unmarked _ fault h ht hc
  · cases hs
    refine h.continues ht rfl ?_
    unfold System.removeRow
    simp only
    split
    · split_ifs
      · exact .finish (hf _)
      · exact .finish (.refl s)
    · exact .finish (.refl s)
    · split_ifs
      · exact .afterReset (hf _)
      · exact .finish (.refl s)
  · cases hs

theorem commitStep_unmarked {e : CommitEvent} (hs : s.commitStep c tx phase e = some s')
    (h : Unmarked c s) (hl : Linked c s) (ht : s.task = some (.transaction tx phase))
    (hc : Careful s (.commit e)) : Unmarked c s' := by
  obtain ⟨htx, hp⟩ := hl.task _ ht
  obtain ⟨hms, hcl⟩ := h.task _ ht
  have hm : ∀ {s' : System}, phase.beforeReplay = true → Moved True c s tx phase s' →
      Unmarked c s' := h.moved hl ht
  unfold System.commitStep at hs
  split at hs
  · cases hs
    exact hm rfl (settleFailure_moved s c tx _ _ rfl)
  · cases hs
    exact hm rfl (finishTimedOutUpload_moved s c tx _ _ _)
  · cases hs
    exact hm rfl (precommit_moved s c tx _ _ _ rfl)
  · cases hs
    exact replay_unmarked _ h hl ht hc
  · cases hs
    exact startCommit_unmarked _ _ _ h ht hc
  · exact commit_unmarked hs h ht
  · cases hs
    exact h.continues ht rfl (recordCommit_continues _ _ _ htx fun hid =>
      hcl (hms hid) (Or.inr hid))
  · cases hs
    exact h.continues ht rfl (.finish (persistTerminal_passes _ _ _ rfl))
  · cases hs

theorem taskStep_unmarked {e : Event} (hs : s.taskStep c task e = some s') (h : Unmarked c s)
    (hl : Linked c s) (ht : s.task = some task) (hc : Careful s e) :
    Unmarked c s' := by
  unfold System.taskStep at hs
  split at hs
  · split at hs
    · rename_i tx phase
      have ho : phase.beforeReplay = true := by
        cases phase with
        | initialCheckpoint | truncating | rebinding | reserving => rfl
        | _ => cases hs
      exact h.moved hl ht ho (openStep_moved hs)
    · rename_i he
      exact prepareStep_unmarked hs h hl ht he
  · split at hs
    · rename_i tx phase
      have htr : phase.beforeReplay = true := by
        cases phase with
        | transferring | transferFailed => rfl
        | _ => cases hs
      exact h.moved hl ht htr (transferStep_moved hs)
    · cases hs
  · split at hs
    · exact commitStep_unmarked hs h hl ht hc
    · cases hs
  · split at hs
    · exact rollbackStep_unmarked hs h ht hc
    · cases hs
  · cases hs

/-- A step that leaves the request alone. -/
theorem Unmarked.aside (h : Unmarked c s) (hf : Frame s s') (hs : s'.stage = s.stage)
    (hr : ∀ key sess, Owns c s'.sessions key sess → Owns c s.sessions key sess)
    (ht : s'.task = s.task) : Unmarked c s' := by
  have hp : Passes c ⟨0, 0⟩ s s' := .of_frame hf (fun i hi => hs ▸ hi) hr
  refine h.passes hp (fun _ _ _ _ _ _ _ hw => Or.inr (ht ▸ hw)) fun task hm => ?_
  rw [ht] at hm
  have hw := h.task task hm
  cases task with
  | transaction tx phase => exact hw.same (.refl tx) (hp.applied _) id
  | _ => exact hw

/-- Every careful step keeps the stages unmarked. -/
theorem Unmarked.step {e : Event} (h : Unmarked c s) (hl : Linked c s)
    (hc : Careful s e) (hs : s.step c e = some s') : Unmarked c s' := by
  have hfr : e.IsFramed → Frame s s' := fun he => step_frame he hs
  cases e with
  | prepare | transfer | commit | rollback =>
    obtain ⟨task, ht, hs⟩ := System.exists_task_of_match hs
    exact taskStep_unmarked hs h hl ht hc
  | request r =>
    simp only [System.step, Option.ite_none_right_eq_some, Option.some.injEq] at hs
    obtain ⟨⟨-, hn⟩, rfl⟩ := hs
    exact h.idle (by simp [hn]) fun task hm => by cases hm; trivial
  | orphan index bytes =>
    have hf := hfr trivial
    simp only [System.step, System.landOrphan, Option.map_eq_some_iff] at hs
    obtain ⟨orphan, -, rfl⟩ := hs
    exact h.aside hf rfl (fun _ _ ho => ho) rfl
  | orphanFails | target =>
    have hf := hfr trivial
    cases hs
    exact h.aside hf rfl (fun _ _ ho => ho) rfl
  | storeElsewhere | removeElsewhere =>
    have hf := hfr trivial
    obtain ⟨sessions, rfl, ho, -⟩ := sessions_elsewhere hs (by simp)
    exact h.aside hf rfl ho rfl
  | crash keep tail =>
    have hf := hfr trivial
    simp only [System.step, Option.ite_none_right_eq_some, Option.some.injEq] at hs
    obtain ⟨-, rfl⟩ := hs
    have hst : ∀ i, (s.crash keep tail).stage = some i → s.stage = some i := by
      intro i hi
      simp only [System.crash, Option.ite_none_right_eq_some] at hi
      exact hi.2
    have hp : Passes c ⟨0, 0⟩ s (s.crash keep tail) :=
      .of_frame hf hst fun _ _ ho => ho
    refine h.passes hp (fun _ _ _ _ _ _ _ hw => Or.inl ?_) (by simp [System.crash])
    obtain ⟨tx, phase, ht, hph, rfl, hcr, -⟩ := hw
    exact hc tx phase ht hph hcr
  | restart now =>
    have hf := hfr trivial
    simp only [System.step, Option.ite_none_right_eq_some] at hs
    obtain ⟨sessions, hr, -, rfl⟩ := restart_eq_some hs.2
    exact h.aside hf rfl (fun _ _ ho => ho.of_recovered hr) rfl

end Keeping

/-! ## Create-only publications -/

theorem reachable_unmarked {t : Option TargetEntry}
    (h : (machine c t).Reachable Careful s) : Unmarked c s := by
  induction h with
  | init =>
    refine ⟨fun key sess i _ _ _ hst => ?_, fun task hm => ?_, fun p hp => ?_⟩
    · cases hst
    · cases hm
    · cases hp
  | step hs hc hsp ih => exact ih.step (reachable_linked hs) hc hsp

/-- Nothing is published under the create-only policy that carries the metadata of an earlier
    target, in every run whose failures are careful. -/
theorem create_only_unmarked (c : Config) (target : Option TargetEntry) :
    ∀ s, (machine c target).Reachable Careful s →
      ∀ p ∈ s.published, p.createOnly = true → p.applied = [] :=
  fun _ h => (reachable_unmarked h).published

/-- A file of another upload, which appears at the target while the commit is under way. -/
def rival : TargetEntry := ⟨⟨⟨1, 9⟩, 1, ⟨.regularFile, 2, 1000, 1000, 420, (0, 0), (0, 0)⟩⟩, []⟩

/-- A create-only upload finds a rival at its destination and waits for a confirmation. The
    confirmation replays the metadata of the rival in part and fails. Then the rival is gone,
    and the upload is resumed as a create-only one. -/
def failedConfirmationRun : List Event :=
  [.request ⟨7, .fresh, 2, .noReplace, none⟩, .prepare (.lookup false), .prepare .inspect,
    .prepare (.create ⟨1, 5⟩), .prepare (.persist 0 none), .prepare .begin,
    .transfer (.chunk [1, 2] none), .transfer .finished, .commit (.precommit none 0 none),
    .commit (.replay .applied), .commit (.start true 0 none), .target (some rival),
    .commit (.commit true ⟨none, .rejected⟩), .commit (.record 0 none),
    .request ⟨7, .resume 2, 2, .ifUnchanged 9, none⟩, .prepare (.lookup false), .prepare .inspect,
    .prepare .preserve, .prepare (.reopen false), .prepare (.truncate false), .prepare .begin,
    .transfer .finished, .commit (.precommit none 0 none), .commit (.replay (.failed true)),
    .target none,
    .request ⟨7, .resume 2, 2, .noReplace, none⟩, .prepare (.lookup false), .prepare .inspect,
    .prepare (.reopen false), .prepare (.truncate false), .prepare .begin, .transfer .finished,
    .commit (.precommit none 0 none), .commit (.replay .applied), .commit (.start true 0 none),
    .commit (.commit true
      ⟨some (⟨.regularFile, 2, 1000, 1000, 420, (0, 0), (0, 0)⟩, []), .published⟩)]

/-- A create-only upload that meets no rival and no failure. -/
theorem create_only_unmarked_plain :
    ∃ (s : System) (p : _), (p ∈ s.published ∧ p.createOnly = true) ∧ p.applied = [] := by
  obtain ⟨s, hs, hp⟩ := @Machine.exists_reachable_of_run _ _ (machine exampleConfig none) Careful
    (failedConfirmationRun.take 11 ++ failedConfirmationRun.drop 35)
    (fun s => s.published.any (·.createOnly)) (by simp [failedConfirmationRun, Careful])
    (by decide +kernel)
  obtain ⟨p, hm, hc⟩ := List.any_eq_true.mp hp
  exact ⟨s, p, ⟨hm, hc⟩, create_only_unmarked exampleConfig none s hs p hm hc⟩

def publishesMarked (s : System) : Bool :=
  s.published.any fun p => p.createOnly && !p.applied.isEmpty

/-- A confirmation that fails after the replay leaves its session without a target revision,
    and a create-only request publishes the stage with the metadata on it. -/
theorem marked_stage_published :
    ∃ s, (machine exampleConfig none).Reachable (fun _ e => ∀ keep tail, e ≠ .crash keep tail) s ∧
      ∃ p ∈ s.published, p.createOnly = true ∧ p.applied ≠ [] := by
  obtain ⟨s, hs, hp⟩ := Machine.exists_reachable_of_run (machine exampleConfig none)
    failedConfirmationRun publishesMarked
    (show ∀ e ∈ failedConfirmationRun, ∀ _ : System, ∀ keep tail, e ≠ .crash keep tail by
      simp [failedConfirmationRun])
    (by decide +kernel)
  simp only [publishesMarked, List.any_eq_true, Bool.and_eq_true, Bool.not_eq_true',
    List.isEmpty_eq_false_iff] at hp
  obtain ⟨p, hm, hc, ha⟩ := hp
  exact ⟨s, hs, p, hm, hc, ha⟩

end DufsRam.Upload
