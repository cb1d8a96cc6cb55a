import DufsRam.Upload.Content
import DufsRam.Upload.Footprint

/-!
# The stage and the bytes received

Every step keeps the content of the stage, for every way the transfer can stop and for
crashes anywhere, unless a rollback or an `fstat` of the open stage fails. Both can leave a
write under way to a stage that the session still names.

Results:
* `Content.step`: every step keeps the content.
* `reachable_content`: the content holds in every reachable state.
* `received_take`: what an offset counts is not received again.
* `stage_holds_received`: the stage, the bytes received and what is published agree.
* `stage_lost_or_overwritten`: how they come apart otherwise.
-/

namespace DufsRam.Upload

open StateStore RootedFs

/-- No rollback fails, and no `fstat` of the open stage while a failure is handled. -/
def Within : Event → Prop
  | .rollback fault => fault = none
  | .commit (.settle f) | .commit (.timeOut _ f) => f.metadata = false
  | _ => True

/-! ## Preparation -/

def Task.Early : Task → Prop
  | .transaction _ _ => False
  | .looking _ | .inspecting _ _ | .preserving _ _ | .creating _ | .reopening _ => True

variable {c : Config} {s s' : System} {task : Task} {tx : UploadTransaction}
  {target : Option TargetEntry} {key : UploadSessionKey} {session : StoredUploadSession Path}

theorem Content.early {t : Option Task} (hh : Held c s) (hp : ∀ p ∈ s.published, p.Exact)
    (hq : Quiet s) (he : ∀ task ∈ t, task.Early) : Content c { s with task := t } := by
  refine ⟨hh, fun _ => hq, fun task ht => ?_, hp⟩
  have := he task ht
  cases task with
  | transaction => exact this.elim
  | looking | inspecting | preserving | creating | reopening => exact hq

theorem early_of_afterChecks {r : UploadRequest} {rec : Option UploadCheckpoint}
    {fid : ReplacementTargetIdentity} {md : Option PreservedFileMetadata}
    (h : Task.afterChecks r rec fid md = some task) : task.Early := by
  unfold Task.afterChecks at h
  split_ifs at h
  split at h <;> cases h <;> trivial

theorem createStage_content {p : Preparation} {file : FileIdentity}
    (h : s.createStage p file = some s') (hf : p.request.mode = .fresh) (hh : Held c s)
    (hp : ∀ p ∈ s.published, p.Exact) (hq : Quiet s) : Content c s' := by
  unfold System.createStage at h
  split_ifs at h with hst hl
  · cases h
    exact .early hh hp hq (by simp)
  cases h
  have hn : s.stage = none := by simpa using hst
  -- Without a stage every row is one that was rolled back.
  have hg : ∀ key session, Resumable c s.sessions key session → key ∈ s.rolledBack := by
    intro key session hr
    obtain ⟨i, -, hk, -⟩ := hh key session hr
    by_contra hm
    rw [hn] at hk
    cases (hk hm).1
  refine .enter ?_ hp ⟨?_, hf, ?_, rfl, rfl, hg⟩
  · intro key session hr
    obtain ⟨i, hi, -, -⟩ := hh key session hr
    refine ⟨i, hi, fun hm => absurd (hg key session hr) hm, fun _ hs => ?_⟩
    obtain rfl : file = i := Option.some.inj hs
    simp only [Function.update_self]
    exact Nat.eq_zero_or_pos _
  · intro o hm hs
    obtain rfl : file = o.file := Option.some.inj hs
    refine hl ?_
    simp only [System.live, Bool.or_eq_true, List.any_eq_true, decide_eq_true_iff]
    exact Or.inr ⟨o, hm, rfl⟩
  · simp [System.data, StageFile.new]

/-- The steps of a request that has no file keep the content. -/
theorem prepareStep_content {e : PrepareEvent} (h : s.prepareStep c task e = some s')
    (ht : task.Linked c s.sessions s.stage) (hh : Held c s)
    (hp : ∀ p ∈ s.published, p.Exact) (hc : task.Content c s) :
    Content c s' := by
  unfold System.prepareStep at h
  split at h
  · cases h
  · -- quit
    rename_i hqt
    cases h
    have hq : Quiet s := by
      cases task with
      | transaction tx ph => exact absurd rfl (hqt tx ph)
      | looking | inspecting | preserving | creating | reopening => exact hc
    exact .early hh hp hq (by simp)
  · -- lookup
    cases h
    refine .early hh hp hc fun task ht => ?_
    obtain ⟨rec, -, rfl⟩ := Option.map_eq_some_iff.mp ht
    trivial
  · -- inspect
    split at h
    · cases h
      refine .early hh hp hc fun task hm => ?_
      simp only [Option.mem_def, Option.ite_none_left_eq_some] at hm
      exact early_of_afterChecks hm.2
    · cases h
      refine .early hh hp hc fun task hm => ?_
      simp only [Option.mem_def, Option.ite_none_left_eq_some, Option.some.injEq] at hm
      obtain ⟨-, rfl⟩ := hm
      trivial
  · -- preserve
    split at h
    · cases h
      exact .early hh hp hc (by simp)
    cases h
    refine .early hh hp hc fun task hm => ?_
    simp only [Option.mem_def, Option.ite_none_left_eq_some] at hm
    exact early_of_afterChecks hm.2
  · -- create
    exact createStage_content h ht.2 hh hp hc
  · -- reopen
    split at h
    · cases h
    split at h
    · cases h
      exact .early hh hp hc (by simp)
    rename_i file ho
    cases h
    exact .enter hh hp ⟨hc, rfl, rfl, (openResumableStage_eq_some ho).2.1⟩
  · cases h

/-! ## The open stage -/

/-- A confirmation has nothing to write. -/
theorem Working.queued_of_awaiting (h : Working c s tx) (haw : tx.awaiting = true) :
    tx.queued = [] := by
  obtain ⟨rev, ho⟩ := h.attached.owns
  have hc : tx.initialOffset = tx.request.uploadLength := by
    refine h.rows.complete _ _ ho (Or.inr ?_)
    simp [Config.sessionOf, UploadTransaction.rowState, haw]
  have hof := h.writing.offset
  have hb := h.writing.bound
  exact List.eq_nil_of_length_eq_zero (by omega)

theorem finishSpaceFailure_content (h : Working c s tx) (hq : tx.queued = [])
    (f : Option System.TruncateFault) :
    Content c (s.finishSpaceFailure tx f) := by
  unfold System.finishSpaceFailure
  split_ifs
  · exact h.finish hq
  · exact (h.cutBack rfl).1
  · exact h.rollBack (Or.inl hq) false

theorem Recorded.finish {tx' : UploadTransaction} {ok : Bool} (h : Recorded c s tx ok s' tx')
    (hs : EntrySafe s) (hp : ∀ p ∈ s.published, p.Exact) : Content c (s'.finish tx') :=
  .finish h.held (by rw [h.published]; exact hp) ⟨h.safe (Or.inr hs), h.apart⟩ h.queued

theorem Recorded.discard {tx' : UploadTransaction} {ok : Bool} (h : Recorded c s tx ok s' tx')
    (hp : ∀ p ∈ s.published, p.Exact) :
    Content c (s'.enter tx' (.discarding true)) :=
  .enter h.held (by rw [h.published]; exact hp) ⟨h.apart, h.sole, h.queued⟩

/-- The first checkpoint of a new stage. -/
theorem initialCheckpoint_content {now : ℤ} {f : Option PersistFault}
    (h : s.openStep c tx .initialCheckpoint (.persist now f) = some s') (hh : Held c s)
    (hpb : ∀ p ∈ s.published, p.Exact) (ha : Apart s)
    (hn : Unrecorded c s.sessions s.rolledBack (s.data tx) tx) : Content c s' := by
  have hrc : ∀ {ok s₁ tx₁}, s.persistCheckpoint c now tx (some tx.targetRevision) 0 true
      f = (ok, s₁, tx₁) → Recorded c s tx ok s₁ tx₁ := by
    intro ok s₁ tx₁ hp
    refine persistCheckpoint_recorded hp (Nat.zero_le _) (fun s₂ tx₂ hf => ?_) hn.sole
      ha (hn.writing _) (Bool.or_true _)
    rw [(hn.flushed hf).1]
    exact hh
  simp only [System.openStep] at h
  split at h
  · rename_i s₁ tx₁ hp
    cases h
    have hr := hrc hp
    obtain ⟨htx, -⟩ := hr.unqueued hn.queued
    refine .enter hr.held (by rw [hr.published]; exact hpb)
      ⟨⟨hr.safe (Or.inl rfl), hr.apart⟩, hr.writing, hr.queued, ?_⟩
    rw [htx, hn.cursor, tx.initialOffset_of_fresh hn.fresh]
  · rename_i s₁ tx₁ hp
    cases h
    exact (hrc hp).discard hpb

/-- A resumed stage from which everything beyond the offset has been cut. -/
theorem working_of_cut (hr : RowsSound c s.sessions)
    (ha : Attached c s.sessions s.stage tx) (hqt : Quiet s) (hh : Held c s)
    (hp : ∀ p ∈ s.published, p.Exact) (hc : tx.cursor = tx.initialOffset)
    (hq : tx.queued = []) (hl : (s.data tx).content.length = tx.initialOffset) :
    Working c s tx := by
  obtain ⟨hhl, -⟩ := hh.backed ha hl.ge
  obtain ⟨rev, ho⟩ := ha.owns
  have hb : tx.initialOffset ≤ tx.request.uploadLength := hr.offset _ _ ho
  refine ⟨hr, ha, hqt, hh, ⟨hl.trans hc.symm, ?_, hc.ge, ?_⟩, hp⟩
  · rw [hq, List.append_nil, ← List.take_length (l := (s.data tx).content), hl, hhl.content]
    exact List.take_prefix _ _
  · rw [hc, hq]
    exact hb

theorem truncate_content {fl : Bool}
    (h : s.openStep c tx .truncating (.truncate fl) = some s') (hr : RowsSound c s.sessions)
    (ha : Attached c s.sessions s.stage tx) (hh : Held c s)
    (hp : ∀ p ∈ s.published, p.Exact) (hph : Phase.truncating.Content c s tx) :
    Content c s' := by
  obtain ⟨hqt, hc, hq, hl⟩ := hph
  have hn : ∀ s₁ : System, Working c s₁ tx → Content c (s₁.enter tx tx.afterTruncation) := by
    intro s₁ hw
    unfold UploadTransaction.afterTruncation
    split_ifs <;> exact .enter hw.held hw.published ⟨hw.quiet, hw.writing, hq, hc⟩
  simp only [System.openStep] at h
  split_ifs at h with hln
  · cases h
    exact .finish hh hp hqt hq
  · cases h
    refine hn _ (working_of_cut hr ha hqt ?_ hp hc hq ?_)
    · obtain ⟨hhl, hz⟩ := hh.backed ha hl
      refine held_of_attached ha hr hqt.1 ?_ hz
      rw [data_updateData]
      exact hhl.setLen 0 le_rfl
    · rw [data_updateData, DurableFile.content_setLen hl, List.length_take, min_eq_left hl]
  · cases h
    exact hn s (working_of_cut hr ha hqt hh hp hc hq (le_antisymm (not_lt.mp hln) hl))

@[simp] theorem bytes_setReceived (s : System) (c : Config) (tx : UploadTransaction)
    (bytes : List UInt8) : (s.setReceived (c.key tx.request.owner) bytes).bytes c tx = bytes := by
  simp [System.bytes, System.setReceived]

/-- The bytes that count as received may change beyond what is written and queued. -/
theorem Working.setReceived (h : Working c s tx) {bytes : List UInt8}
    (hwt : (s.data tx).content ++ tx.queued <+: bytes) :
    Working c (s.setReceived (c.key tx.request.owner) bytes) tx := by
  obtain ⟨hh, hz⟩ := h.held.backed h.attached h.writing.offset_le_length
  have hc : (s.data tx).content <+: bytes := (List.prefix_append _ _).trans hwt
  have ht : (s.data tx).content.take tx.initialOffset = bytes.take tx.initialOffset := by
    obtain ⟨rest, rfl⟩ := hc
    rw [List.take_append_of_le_length h.writing.offset_le_length]
  have hh' : (s.data tx).Holds tx.initialOffset bytes :=
    ⟨hh.durable, h.writing.offset_le_length.trans hc.length_le, ht⟩
  have hb := bytes_setReceived s c tx bytes
  refine ⟨h.rows, h.attached, h.quiet, held_of_attached h.attached h.rows h.quiet.1 ?_ hz, ?_,
    h.published⟩
  · rw [hb]
    exact hh'
  · rw [hb]
    exact ⟨h.writing.position, hwt, h.writing.offset, h.writing.bound⟩

theorem begin_content (h : Working c s tx) (hq : tx.queued = [])
    (hc : tx.cursor = tx.initialOffset) :
    Content c (s.begin c tx) := by
  have hl : (s.data tx).content.length = tx.initialOffset := h.writing.position.trans hc
  have hwt : (s.data tx).content ++ tx.queued = (s.bytes c tx).take tx.initialOffset := by
    obtain ⟨hh, -⟩ := h.held.backed h.attached h.writing.offset_le_length
    rw [hq, List.append_nil, ← hh.content, ← hl, List.take_length]
  have hbn : tx.initialOffset ≤ tx.request.uploadLength := by
    have := h.writing.bound
    omega
  have hw : Working c (s.setReceived (c.key tx.request.owner)
      ((s.bytes c tx).take tx.initialOffset)) tx := h.setReceived (by rw [hwt])
  have hb := (bytes_setReceived s c tx _).trans hwt.symm
  show Content c (System.enter (s.setReceived (c.key tx.request.owner)
    ((s.bytes c tx).take tx.initialOffset)) tx _)
  refine .enter hw.held hw.published ⟨hw.quiet, hw.writing, hb.symm, ?_⟩
  rw [hb, hq, List.append_nil, hl]
  omega

/-- The steps from the open stage to the body keep the content. -/
theorem openStep_content {ph : Phase} {e : PrepareEvent} (h : s.openStep c tx ph e = some s')
    (hrw : RowsSound c s.sessions) (hl : ph.Linked c s.sessions s.stage tx)
    (hh : Held c s) (hpb : ∀ p ∈ s.published, p.Exact) (hp : ph.Content c s tx) :
    Content c s' := by
  have ho := h
  unfold System.openStep at h
  split at h
  · -- abandon
    obtain ⟨ha, hn⟩ := hp
    cases h
    exact .enter hh hpb ⟨ha, hn.sole, hn.queued⟩
  · -- deadline before the first checkpoint
    cases h
    exact .enter hh hpb (Or.inl hp)
  · exact initialCheckpoint_content ho hh hpb hp.1 hp.2
  · obtain ⟨hqt, -, hq, -⟩ := hp
    cases h
    exact .finish hh hpb hqt hq
  · exact truncate_content ho hrw hl hh hpb hp
  · obtain ⟨hqt, -, hq, -⟩ := hp
    cases h
    exact .finish hh hpb hqt hq
  · -- the new revision
    obtain ⟨hqt, hwr, hq, hc⟩ := hp
    have hw : Working c s tx := ⟨hrw, hl.2, hqt, hh, hwr, hpb⟩
    have hle : tx.initialOffset ≤ tx.request.uploadLength :=
      hwr.offset.trans ((Nat.le_add_right _ _).trans hwr.bound)
    split at h
    · rename_i s₁ tx₁ hpr
      have hr := hw.persistCheckpoint hpr hle
      obtain ⟨htx, -⟩ := hr.unqueued hq
      cases h
      refine .enter hr.held (by rw [hr.published]; exact hpb)
        ⟨⟨hr.safe (Or.inl rfl), hr.apart⟩, hr.writing, hr.queued, ?_⟩
      rw [htx, hc]
    · rename_i s₁ tx₁ hpr
      cases h
      exact (hw.persistCheckpoint hpr hle).finish hqt.1 hpb
  · obtain ⟨hqt, -, hq, -⟩ := hp
    split_ifs at h
    cases h
    exact .finish hh hpb hqt hq
  · obtain ⟨hqt, hwr, -, -⟩ := hp
    cases h
    exact .enter hh hpb (Or.inr ⟨hqt, hl, hwr⟩)
  · obtain ⟨hqt, hwr, hq, -⟩ := hp
    cases h
    exact finishSpaceFailure_content ⟨hrw, hl, hqt, hh, hwr, hpb⟩ hq _
  · obtain ⟨hqt, hwr, hq, hc⟩ := hp
    cases h
    exact begin_content ⟨hrw, hl, hqt, hh, hwr, hpb⟩ hq hc
  · cases h

/-! ## Transfer -/

theorem Working.transferFailed (h : Working c s tx) (err : UploadTransferError) :
    Content c (s.enter tx (.transferFailed err)) :=
  .enter h.held h.published ⟨h.quiet, h.writing⟩

/-- The chunk goes to the queue when what was queued has reached the file. -/
theorem Working.accept (h : Working c s tx) {acc : List UInt8}
    (hwt : (s.data tx).content ++ tx.queued ++ acc <+: s.bytes c tx)
    (hb : ((s.data tx).content ++ tx.queued ++ acc).length ≤ tx.request.uploadLength) :
    Working c (s.land tx tx.queued.length).1
      { (s.land tx tx.queued.length).2 with queued := acc } := by
  have hc := h.writing.content_land tx.queued.length
  rw [List.take_length] at hc
  have hw := h.land tx.queued.length
  refine hw.queue ?_ ?_
  · show ((s.land tx tx.queued.length).1.data tx).content ++ acc <+: _
    rw [hc]
    exact hwt
  · rw [← hw.writing.position, ← List.length_append]
    show (((s.land tx tx.queued.length).1.data tx).content ++ acc).length ≤ _
    rw [hc]
    exact hb

theorem writeUploadChunk_content (h : Working c s tx) {rem : ℕ} {acc : List UInt8}
    {excess : Bool} (f : Option ChunkFault)
    (hwt : (s.data tx).content ++ tx.queued ++ acc <+: s.bytes c tx)
    (hb : ((s.data tx).content ++ tx.queued ++ acc).length ≤ tx.request.uploadLength)
    (hal : excess = false → (s.data tx).content ++ tx.queued ++ acc = s.bytes c tx ∧
      rem - acc.length + (s.bytes c tx).length = tx.request.uploadLength) :
    Content c (s.writeUploadChunk tx rem acc excess f) := by
  have ha := h.accept hwt hb
  cases f with
  | none =>
    cases excess with
    | true => exact ha.transferFailed _
    | false =>
      obtain ⟨hby, hr⟩ := hal rfl
      refine .enter ha.held ha.published ⟨ha.quiet, ha.writing, ?_, hr⟩
      show ((s.land tx tx.queued.length).1.data tx).content ++ acc = s.bytes c tx
      rw [h.writing.content_land, List.take_length, hby]
  | some f =>
    cases f with
    | reservation | spaceCheck | storage => exact h.transferFailed _
    | write ld =>
      have hq : Working c s { tx with queued := tx.queued ++ acc } := by
        refine h.queue (by rwa [← List.append_assoc]) ?_
        rw [← h.writing.position, ← List.length_append, ← List.append_assoc]
        exact hb
      exact (hq.flushed (.lost ld)).transferFailed _
    | idleDeadline | totalDeadline => exact ha.transferFailed _

theorem receiveChunk_content (h : Working c s tx) {remaining : ℕ}
    (hb : (s.data tx).content ++ tx.queued = s.bytes c tx)
    (hrm : remaining + (s.bytes c tx).length = tx.request.uploadLength) (data : List UInt8)
    (f : Option ChunkFault) :
    Content c (s.receiveChunk c tx remaining data f) := by
  have hw : Working c (s.setReceived (c.key tx.request.owner)
      (s.received (c.key tx.request.owner) ++ data)) tx :=
    h.setReceived (by rw [hb]; exact List.prefix_append _ _)
  have hr : (s.setReceived (c.key tx.request.owner)
      (s.received (c.key tx.request.owner) ++ data)).bytes c tx = s.bytes c tx ++ data :=
    bytes_setReceived s c tx _
  have hs : (s.setReceived (c.key tx.request.owner)
      (s.received (c.key tx.request.owner) ++ data)).data tx = s.data tx := rfl
  have ht : (data.take remaining).length ≤ remaining := by
    rw [List.length_take]
    exact min_le_left _ _
  unfold System.receiveChunk
  simp only
  generalize s.setReceived (c.key tx.request.owner) (s.received (c.key tx.request.owner) ++ data) =
    s₁ at hw hr hs ⊢
  rw [← hs] at hb
  split_ifs with hem hn
  · have hr : s₁.bytes c tx = s.bytes c tx := by rw [hr, hem, List.append_nil]
    exact .enter hw.held hw.published
      ⟨hw.quiet, hw.writing, by rw [hr]; exact hb, by rw [hr]; exact hrm⟩
  · exact hw.transferFailed _
  refine writeUploadChunk_content hw f ?_ ?_ fun he => ?_
  · rw [hb, hr]
    exact (List.prefix_append_right_inj _).mpr (List.take_prefix _ _)
  · rw [hb, List.length_append]
    omega
  have hd : data.take remaining = data := by
    rw [decide_eq_false_iff_not, List.length_take] at he
    exact List.take_of_length_le (by omega)
  rw [hd] at ht ⊢
  rw [hb, hr, List.length_append]
  exact ⟨rfl, by omega⟩

/-- Receiving the body keeps the content. -/
theorem transferStep_content {ph : Phase} {e : TransferEvent}
    (h : s.transferStep c tx ph e = some s') (hr : RowsSound c s.sessions)
    (hl : ph.Linked c s.sessions s.stage tx) (hh : Held c s)
    (hpb : ∀ p ∈ s.published, p.Exact) (hp : ph.Content c s tx) :
    Content c s' := by
  unfold System.transferStep at h
  split at h
  · -- the queue progresses
    rename_i rem b
    obtain ⟨hq, hwr, hb, hrm⟩ := hp
    have hw : Working c s tx := ⟨hr, hl, hq, hh, hwr, hpb⟩
    cases h
    refine .enter (hw.land b).held hpb ⟨hq, (hw.land b).writing, ?_, hrm⟩
    show ((s.land tx b).1.data tx).content ++ tx.queued.drop b = s.bytes c tx
    rw [hwr.content_land, List.append_assoc, List.take_append_drop, hb]
  · obtain ⟨hq, hwr⟩ := hp
    have hw : Working c s tx := ⟨hr, hl, hq, hh, hwr, hpb⟩
    cases h
    exact (hw.land _).transferFailed _
  · obtain ⟨hq, hwr, hb, hrm⟩ := hp
    cases h
    exact receiveChunk_content ⟨hr, hl, hq, hh, hwr, hpb⟩ hb hrm _ _
  · obtain ⟨hq, hwr, -, -⟩ := hp
    have hw : Working c s tx := ⟨hr, hl, hq, hh, hwr, hpb⟩
    split at h <;> cases h <;> exact hw.transferFailed _
  · obtain ⟨hq, hwr, hb, -⟩ := hp
    cases h
    exact .enter hh hpb ⟨hq, hwr, hb⟩
  · cases h

/-! ## Failures -/

theorem checkpointPartial_content (h : Working c s tx) (f : SettleFaults) :
    Content c (s.checkpointPartial c tx (s.data tx).content.length f) := by
  have hle : (s.data tx).content.length ≤ tx.request.uploadLength := by
    rw [h.writing.position]
    exact (Nat.le_add_right _ _).trans h.writing.bound
  unfold System.checkpointPartial
  split_ifs with hcp hrs
  · exact (h.persistCheckpoint rfl hle).finish h.quiet.1 h.published
  · -- What has been written is always within the bounds of a checkpoint.
    refine absurd ?_ hcp
    simp [partialUploadIsCheckpointable, h.writing.offset_le_length, hle, hrs]
  · exact h.rollBack (Or.inr (by simpa using hrs)) false

theorem settleFailure_content (h : Working c s tx) (err : UploadTransferError) {f : SettleFaults}
    (hm : f.metadata = false) : Content c (s.settleFailure c tx err f) := by
  have hs := settleFailure_settled s c tx err f
  generalize s.settleFailure c tx err f = s' at hs
  cases hs with
  | confirmation haw => exact h.finish (h.queued_of_awaiting haw)
  | unreadable hf => rw [hm] at hf; cases hf
  | late => exact .enter h.held h.published (Or.inr ⟨h.quiet, h.attached, h.writing⟩)
  | cut hc => exact (h.cutBack hc).1
  | undone hfr => exact h.rollBack (Or.inr hfr) false
  | cutUndone hc => exact (h.cutBack hc).2
  | checkpoint =>
    rw [if_neg (by simp [hm])]
    exact checkpointPartial_content h f

theorem resumableUploadMinSize_pos : 0 < resumableUploadMinSize := by decide

theorem finishTimedOutUpload_content (hrw : RowsSound c s.sessions) (hh : Held c s)
    (hp : ∀ p ∈ s.published, p.Exact) (hph : Phase.timedOut.Content c s tx)
    (flush : Option ℕ) {f : SettleFaults} (hm : f.metadata = false) :
    Content c (s.finishTimedOutUpload c tx flush f) := by
  obtain ⟨s₁, tx₁, hfl, hrt⟩ := finishTimedOutUpload_timedOut s c tx flush f
  generalize s.finishTimedOutUpload c tx flush f = s' at hrt
  obtain ⟨ha, hn⟩ | ⟨hq, hat, hwr⟩ := hph
  · obtain ⟨rfl, rfl⟩ := hn.flushed hfl
    have hfr : tx₁.resume = false := by
      simp [UploadTransaction.resume, hn.fresh, UploadMode.isResume]
    cases hrt with
    | returned hrs | cut hrs => rw [hfr] at hrs; cases hrs
    | unrecorded => exact .enter hh hp ⟨ha, hn.sole, hn.queued⟩
    | unreadable hf => rw [hm] at hf; cases hf
    | checkpoint hcp =>
      -- Nothing was written, which is too little for a checkpoint of a fresh upload.
      have he : (s₁.files tx₁.file).data.content.length = 0 := by
        rw [show (s₁.files tx₁.file).data = .new from hn.empty]
        rfl
      have := resumableUploadMinSize_pos
      simp only [partialUploadIsCheckpointable, he, hfr, Bool.false_or, Bool.and_eq_true,
        decide_eq_true_iff] at hcp
      omega
  · have hw : Working c s₁ tx₁ :=
      Working.flushed ⟨hrw, hat, hq, hh, hwr, hp⟩ hfl
    cases hrt with
    | returned => exact hw.finish hfl.queued
    | unrecorded =>
      exact .enter hw.held hw.published ⟨hw.quiet.2, hw.attached.sole hw.rows, hfl.queued⟩
    | unreadable hf => rw [hm] at hf; cases hf
    | checkpoint hcp hpr =>
      have hle : (s₁.data tx₁).content.length ≤ tx₁.request.uploadLength := by
        rw [hw.writing.position]
        exact (Nat.le_add_right _ _).trans hw.writing.bound
      have hr := hw.persistCheckpoint hpr hle
      split_ifs
      · exact hr.finish hw.quiet.1 hw.published
      · exact hr.discard hw.published
    | cut _ hc => exact (hw.cutBack hc).1

/-! ## Commit -/

theorem precommit_content (h : Working c s tx)
    (hb : (s.data tx).content ++ tx.queued = s.bytes c tx) (f : Option PrecommitFault)
    (now : ℤ) (persist : Option PersistFault) :
    Content c (s.precommit c tx f now persist) := by
  obtain ⟨s₁, tx₁, hfl, hr⟩ := precommit_precommitted s c tx f now persist
  generalize s.precommit c tx f now persist = s' at hr
  have hw : Working c s₁ tx₁ := h.flushed hfl
  have hq := hfl.queued
  cases hr with
  | returned => exact hw.finish hq
  | undone | long => exact hw.rollBack (Or.inl hq) false
  | noSpace truncate => exact finishSpaceFailure_content hw hq truncate
  | late => exact .enter hw.held hw.published (Or.inr ⟨hw.quiet, hw.attached, hw.writing⟩)
  | complete hl =>
    have hrc : (s₁.bytes c tx₁).length ≤ tx₁.request.uploadLength := by
      obtain ⟨⟨cur, qd, rfl⟩, -⟩ := hfl.dataOnly
      rw [hfl.dataOnly.bytes c, ← hb, List.length_append, h.writing.position]
      exact h.writing.bound
    -- A prefix that is as long as the whole is the whole.
    have hc : (s₁.data tx₁).content = s₁.bytes c tx₁ :=
      hw.writing.content_isPrefixOf.eq_of_length_le (hrc.trans hl.ge)
    refine .enter hw.held hw.published ⟨hw.quiet, hw.writing, hq, hc, ?_⟩
    rw [← hc]
    exact hl
  | short _ hs hp =>
    exact (hw.persistCheckpoint hp hs.le).finish hw.quiet.1 hw.published

/-- The replay of metadata leaves the data alone. -/
theorem data_recordReplay (s : System) (tx : UploadTransaction) (md : PreservedFileMetadata)
    (i : FileIdentity) : ((s.recordReplay tx md).files i).data = (s.files i).data := by
  by_cases hi : i = tx.file
  · subst hi
    simp [System.recordReplay]
  · simp [System.recordReplay, Function.update_of_ne hi]

theorem Held.recordReplay (h : Held c s) (tx : UploadTransaction) (md : PreservedFileMetadata) :
    Held c (s.recordReplay tx md) := by
  intro key session hr
  obtain ⟨i, hi, hk, hg⟩ := h key session hr
  refine ⟨i, hi, ?_, ?_⟩
  · rw [data_recordReplay]
    exact hk
  · rw [data_recordReplay]
    exact hg

theorem replay_content (hrw : RowsSound c s.sessions)
    (ha : Attached c s.sessions s.stage tx) (hh : Held c s)
    (hp : ∀ p ∈ s.published, p.Exact) (hq : Quiet s)
    (hc : Complete (s.data tx) (s.bytes c tx) tx) (r : ReplayResult) :
    Content c (s.replay tx r) := by
  have hr : ∀ md, Complete ((s.recordReplay tx md).data tx) (s.bytes c tx) tx := by
    intro md
    rw [System.data, data_recordReplay]
    exact hc
  unfold System.replay
  split
  · exact .enter hh hp ⟨hq, hc⟩
  · exact .enter (hh.recordReplay tx _) hp ⟨hq, hr _⟩
  rename_i md chg hm
  have hw : Working c (if chg then s.recordReplay tx md else s) tx := by
    cases chg with
    | false => exact ⟨hrw, ha, hq, hh, hc.writing, hp⟩
    | true => exact ⟨hrw, ha, hq, hh.recordReplay tx md,
        (hr md).writing, hp⟩
  by_cases haw : tx.awaiting = true
  · simp only [haw, if_true]
    exact hw.finish hc.queued
  · simp only [haw]
    exact hw.rollBack (Or.inl hc.queued) false

theorem startCommit_content (h : Working c s tx)
    (hc : Complete (s.data tx) (s.bytes c tx) tx) (spc : Bool) (now : ℤ)
    (f : Option PersistFault) : Content c (s.startCommit c tx spc now f) := by
  have hrc : ∀ {ok s₁ tx₁}, s.persistCommitStarted c now tx f = (ok, s₁, tx₁) →
      Recorded c s tx ok s₁ tx₁ := by
    intro ok s₁ tx₁ hp
    exact persistStage_recorded hp rfl (fun _ _ hf => h.held_flushed hf)
      (h.attached.sole h.rows) h.quiet.2 h.writing (by simp [h.entrySynced])
  unfold System.startCommit
  split_ifs
  · exact h.finish hc.queued
  · exact h.rollBack (Or.inl hc.queued) false
  split
  · rename_i s' tx' hp
    have hr := hrc hp
    obtain ⟨htx, hcn⟩ := hr.unqueued hc.queued
    refine .enter hr.held (by rw [hr.published]; exact h.published)
      ⟨⟨hr.safe (Or.inl rfl), hr.apart⟩, hr.writing, hr.queued, ?_, ?_⟩
    · rw [hcn, hr.bytes, hc.content]
    · rw [hr.bytes, hc.length, htx]
  · rename_i s' tx' hp
    have hr := hrc hp
    exact .rollBack hr.held (by rw [hr.published]; exact h.published)
      (hr.safe (Or.inr h.quiet.1)) hr.sole (Or.inl ⟨hr.queued, hr.apart⟩) false

theorem held_of_not_resumable (h : ∀ key session, ¬ Resumable c s.sessions key session) :
    Held c s :=
  fun key session hr => absurd hr (h key session)

/-- A committed stage that was renamed is exactly what was received. -/
theorem publish_exact (hc : Complete (s.data tx) (s.bytes c tx) tx)
    (hp : ∀ p ∈ s.published, p.Exact) (attributes : Attributes)
    (xattrs : List (String × List UInt8)) :
    ∀ p ∈ (s.publish c tx attributes xattrs).published, p.Exact := by
  intro p hm
  obtain rfl | hm := List.mem_cons.mp hm
  · refine ⟨?_, hc.content⟩
    rw [← hc.length, ← hc.content]
    rfl
  · exact hp p hm

theorem commit_content {spc : Bool} {r : CommitResult}
    (h : s.commit c tx spc r = some s') (hrw : RowsSound c s.sessions)
    (hrc : CommitRecorded c s.sessions tx) (hp : ∀ p ∈ s.published, p.Exact)
    (hq : Quiet s) (hc : Complete (s.data tx) (s.bytes c tx) tx) : Content c s' := by
  have hn := hrc.not_resumable hrw
  have ha : ∀ s₁ : System, s₁.sessions = s.sessions → Quiet s₁ → (∀ p ∈ s₁.published, p.Exact) →
      (s₁.stage = some tx.file → Complete (s₁.data tx) (s₁.bytes c tx) tx) → ∀ out,
      Content c (s₁.afterCommit tx out) := by
    intro s₁ hss hq₁ hp₁ hc₁ out
    have hn₁ : ∀ key session, ¬ Resumable c s₁.sessions key session := by
      rw [hss]
      exact hn
    have hh₁ := held_of_not_resumable hn₁
    cases out with
    | published | publishedDurabilityUnknown =>
      exact .enter hh₁ hp₁ ⟨hq₁, hc.queued⟩
    | rejected => exact .enter hh₁ hp₁ ⟨hq₁, hc.queued, hc₁⟩
    | notPublished =>
      exact .rollBack hh₁ hp₁ hq₁.1 (fun key session hr => absurd hr (hn₁ _ _))
        (Or.inl ⟨hc.queued, hq₁.2⟩) true
  unfold System.commit at h
  split_ifs at h
  · cases h
    exact .rollBack (held_of_not_resumable hn) hp hq.1
      (fun key session hr => absurd hr (hn _ _)) (Or.inl ⟨hc.queued, hq.2⟩) false
  split at h
  · cases h
    exact ha s rfl hq hp (fun _ => hc) _
  cases h
  refine ha (s.publish c tx _ _) rfl ⟨?_, ?_⟩ (publish_exact hc hp _ _) ?_ _
  · intro hsm
    cases hsm
  · intro o _ hsa
    cases hsa
  · intro hs
    cases hs

/-- A terminal record keeps the rows held. -/
theorem persistTerminal_content {now : ℤ} {off : ℕ} {state : StoredUploadState}
    {f : Option StoreFault} (hh : Held c s) (hp : ∀ p ∈ s.published, p.Exact)
    (hqt : Quiet s) (hq : tx.queued = []) (ht : state.isTerminal = true) :
    Content c ((s.persistTerminal c now tx off state f).finish tx) := by
  have hpd := persistState_persisted s c now (c.key tx.request.owner)
    tx.request.uploadLength none off state none f
  have hs : (s.proposedSession c (c.key tx.request.owner) tx.request.uploadLength none
    off state none).state = state := rfl
  unfold System.persistTerminal
  generalize (s.persistState c now (c.key tx.request.owner) tx.request.uploadLength none
      off state none f).1 = ok,
    (s.persistState c now (c.key tx.request.owner) tx.request.uploadLength none off state
      none f).2 = s' at hpd
  cases hpd with
  | refused => exact .finish hh hp hqt hq
  | swept => exact .finish (hh.fewer fun _ _ ho => ho.of_swept) hp hqt hq
  | stored _ exp =>
    rw [hs, ht, if_pos rfl]
    refine .finish (hh.fewer fun key session ho => ?_) hp hqt hq
    obtain ⟨-, rfl⟩ | ⟨-, hold⟩ := ho.of_put
    · have hl := ho.live
      rw [hs, ht] at hl
      cases hl
    · exact hold.of_swept

theorem recordAwaiting_content (hrw : RowsSound c s.sessions)
    (hrc : CommitRecorded c s.sessions tx) (hpb : ∀ p ∈ s.published, p.Exact)
    (hq : Quiet s) (hc : s.stage = some tx.file → Complete (s.data tx) (s.bytes c tx) tx)
    (now : ℤ) (f : Option PersistFault) :
    Content c (s.recordCommit c tx .awaitingConfirmation now f) := by
  have hn := hrc.not_resumable hrw
  have hfl : ∀ s₁ tx₁, Flushed s tx s₁ tx₁ → Held c s₁ := by
    intro s₁ tx₁ hf
    refine held_of_not_resumable ?_
    rw [hf.dataOnly.sessions]
    exact hn
  cases hp : s.persistAwaitingConfirmation c now tx f with
  | mk ok out =>
  obtain ⟨s', tx'⟩ := out
  simp only [System.recordCommit, hp]
  by_cases hs : s.stage = some tx.file
  · have hsy : (s.entrySynced || false) = true := by
      rw [hq.1 (by simp [hs]), Bool.true_or]
    have hr : Recorded c s tx ok s' tx' := persistStage_recorded hp rfl hfl
      (fun key session hr => absurd hr (hn _ _)) hq.2 (hc hs).writing hsy
    exact hr.finish hq.1 hpb
  · -- The stage is gone, so the record was not even offered to the store.
    obtain ⟨-, hf⟩ | ⟨-, hsm, -⟩ := persistStage_cases s c now tx _ _ _ _ _ hp
    · exact .finish (hfl s' tx' hf) (by rw [hf.dataOnly.published]; exact hpb)
        (hf.dataOnly.quiet hq) hf.queued
    · exact absurd hsm hs

/-- The steps after the body keep the content. -/
theorem commitStep_content {ph : Phase} {e : CommitEvent}
    (h : s.commitStep c tx ph e = some s') (hwi : Within (.commit e))
    (hr : RowsSound c s.sessions) (hl : ph.Linked c s.sessions s.stage tx)
    (hh : Held c s) (hpb : ∀ p ∈ s.published, p.Exact) (hp : ph.Content c s tx) :
    Content c s' := by
  unfold System.commitStep at h
  split at h
  · obtain ⟨hq, hwr⟩ := hp
    cases h
    exact settleFailure_content ⟨hr, hl, hq, hh, hwr, hpb⟩ _ hwi
  · cases h
    exact finishTimedOutUpload_content hr hh hpb hp _ hwi
  · obtain ⟨hq, hwr, hb⟩ := hp
    cases h
    exact precommit_content ⟨hr, hl, hq, hh, hwr, hpb⟩ hb _ _ _
  · cases h
    exact replay_content hr hl hh hpb hp.1 hp.2 _
  · obtain ⟨hq, hc⟩ := hp
    cases h
    exact startCommit_content ⟨hr, hl, hq, hh, hc.writing, hpb⟩ hc _ _ _
  · exact commit_content h hr hl.2 hpb hp.1 hp.2
  · rename_i rec now f
    cases h
    cases rec with
    | committed | unknown =>
      exact persistTerminal_content hh hpb hp.1 hp.2 rfl
    | awaitingConfirmation =>
      exact recordAwaiting_content hr hl hpb hp.1 hp.2.2 now f
  · cases h
    exact persistTerminal_content hh hpb hp.1 hp.2 rfl
  · cases h

/-! ## Rollback -/

/-- The stage is unlinked and no other session lives on it. -/
theorem Held.unlink (h : Held c s) (hsl : Sole c s tx) :
    Held c (s.unlink (c.key tx.request.owner)) := by
  intro key session hr
  obtain ⟨i, hi, -, -⟩ := h key session hr
  refine ⟨i, hi, fun hm => absurd ?_ hm, fun _ hs => by cases hs⟩
  by_cases hk : key = c.key tx.request.owner
  · exact List.mem_cons.mpr (Or.inl hk)
  · exact List.mem_cons_of_mem _ (hsl key session hr hk)

theorem quiet_unlink (s : System) (key : UploadSessionKey) : Quiet (s.unlink key) :=
  ⟨fun hs => (by cases hs), fun _ _ hsm => by cases hsm⟩

theorem Sole.unlink (h : Sole c s tx) : Sole c (s.unlink (c.key tx.request.owner)) tx :=
  fun key session hr hne => List.mem_cons_of_mem _ (h key session hr hne)

/-- The row of a session is removed. -/
theorem Held.forget (h : Held c s) (key : UploadSessionKey) : Held c (s.forget key) := by
  intro key' session hr
  obtain ⟨hne, ho⟩ := hr.1.of_erase
  obtain ⟨i, hi, hk, hg⟩ := h key' session ⟨ho, hr.2⟩
  have hm : key' ∈ (s.forget key).rolledBack ↔ key' ∈ s.rolledBack := by
    simp [System.forget, hne]
  exact ⟨i, hi, fun hn => hk (mt hm.mpr hn), fun hin => hg (hm.mp hin)⟩

theorem Content.afterReset (hh : Held c s) (hp : ∀ p ∈ s.published, p.Exact)
    (hqt : Quiet s) (hq : tx.queued = []) (rej : Bool) :
    Content c (s.afterReset tx rej) := by
  cases rej with
  | true => exact .enter hh hp ⟨hqt, hq⟩
  | false => exact .finish hh hp hqt hq

/-- `reset` finds the stage of the session, or no orphan writes to what is there. -/
theorem reset_content {rej : Bool} (hh : Held c s)
    (hp : ∀ p ∈ s.published, p.Exact) (hph : (Phase.resetting rej).Content c s tx) :
    Content c (s.reset c tx rej none) := by
  obtain ⟨hsf, hsl, hq, hap⟩ := hph
  unfold System.reset
  rw [if_neg (by simp)]
  cases hg : s.sessions.get (c.key tx.request.owner) with
  | none =>
    have hqt : Quiet s := by
      refine ⟨hsf, hap.resolve_right ?_⟩
      rintro ⟨ha, -⟩
      obtain ⟨rev, exp, hr, -⟩ := ha.row
      rw [hg] at hr
      cases hr
    exact .afterReset hh hp hqt hq rej
  | some row =>
    obtain ⟨session, exp⟩ := row
    -- An attached stage is the one that the row names, so any other has no orphan.
    have hu : c.binds session = false ∨ session.stageIdentity ≠ s.stage ∨ s.stage = none →
        Quiet s := by
      intro ho
      refine ⟨hsf, hap.resolve_right ?_⟩
      rintro ⟨ha, -⟩
      obtain ⟨rev, how⟩ := ha.owns
      have hss := how.eq hg
      obtain hb | hid | hs := ho
      · rw [← hss] at hb
        simp [Config.binds, Config.sessionOf] at hb
      · rw [← hss, ha.stage] at hid
        exact hid rfl
      · rw [ha.stage] at hs
        cases hs
    simp only
    by_cases hb : c.binds session = true
    · rw [if_neg (by simp [hb])]
      cases hs : s.stage with
      | none =>
        have hqt := hu (Or.inr (Or.inr hs))
        have hn : Content c (s.enter tx (.removing session rej)) :=
          .enter hh hp ⟨hqt, hq⟩
        cases hid : session.stageIdentity with
        | none => exact hn
        | some fid => simpa [System.removeFileIfIdentity, hs] using hn
      | some actual =>
        cases hid : session.stageIdentity with
        | none =>
          have hqt := hu (Or.inr (Or.inl (by simp [hid, hs])))
          exact .enter hh hp ⟨hqt, hq⟩
        | some fid =>
          by_cases hsm : actual = fid
          · have hn : Content c ((s.unlink (c.key tx.request.owner)).enter tx
                (.removing session rej)) :=
              .enter (hh.unlink hsl) hp ⟨quiet_unlink s _, hq⟩
            simpa [System.removeFileIfIdentity, hs, hsm, unlinkFault] using hn
          · have hqt := hu (Or.inr (Or.inl (by
              rw [hid, hs]
              exact fun h => hsm (Option.some.inj h).symm)))
            have hn : Content c (s.finish tx) := .finish hh hp hqt hq
            simpa [System.removeFileIfIdentity, hs, hsm] using hn
    · rw [if_pos (by simpa using hb)]
      exact .finish hh hp (hu (Or.inl (by simpa using hb))) hq

/-- The steps of a rollback that does not fail keep the content. -/
theorem rollbackStep_content {ph : Phase} (h : s.rollbackStep c tx none ph = some s')
    (hl : ph.Linked c s.sessions s.stage tx) (hh : Held c s)
    (hp : ∀ p ∈ s.published, p.Exact) (hph : ph.Content c s tx) : Content c s' := by
  unfold System.rollbackStep at h
  split at h
  · rename_i rst
    obtain ⟨-, hs, hq⟩ := hph
    have hrm : s.removeFileIfIdentity (c.key tx.request.owner) tx.file (unlinkFault none) =
        (true, s.unlink (c.key tx.request.owner)) := by
      simp [System.removeFileIfIdentity, hl.2, unlinkFault]
    have hqt := quiet_unlink s (c.key tx.request.owner)
    rw [hrm] at h
    cases h
    cases rst with
    | true =>
      exact .rollBack (hh.unlink hs) hp hqt.1 hs.unlink (Or.inl ⟨hq, hqt.2⟩) false
    | false => exact .finish (hh.unlink hs) hp hqt hq
  · cases h
    exact reset_content hh hp hph
  · obtain ⟨hqt, hq⟩ := hph
    cases h
    unfold System.removeRow
    simp only
    split_ifs
    · exact .afterReset (hh.forget _) hp hqt hq _
    · exact .finish hh hp hqt hq
  · cases h

/-! ## Every step -/

theorem taskStep_content {e : Event} (h : s.taskStep c task e = some s') (hwi : Within e)
    (hr : RowsSound c s.sessions) (hl : task.Linked c s.sessions s.stage) (hh : Held c s)
    (hp : ∀ p ∈ s.published, p.Exact) (hc : task.Content c s) : Content c s' := by
  unfold System.taskStep at h
  split at h
  · split at h
    · exact openStep_content h hr hl.2 hh hp hc
    · exact prepareStep_content h hl hh hp hc
  · split at h
    · exact transferStep_content h hr hl.2 hh hp hc
    · cases h
  · split at h
    · exact commitStep_content h hwi hr hl.2 hh hp hc
    · cases h
  · split at h
    · obtain rfl : _ = none := hwi
      exact rollbackStep_content h hl.2 hh hp hc
    · cases h
  · cases h

/-- A step of others that leaves the stage and its sessions alone. -/
structure Elsewhere (c : Config) (s s' : System) : Prop where
  stage : s'.stage = s.stage
  entrySynced : s'.entrySynced = s.entrySynced
  data : ∀ i, s.stage = some i → (s'.files i).data = (s.files i).data
  received : s'.received = s.received
  rolledBack : s'.rolledBack = s.rolledBack
  apart : Apart s → Apart s'
  fewer : ∀ key session, Owns c s'.sessions key session → Owns c s.sessions key session
  kept : ∀ key row, s.sessions.get key = some row → c.owns row = true →
    s'.sessions.get key = some row
  task : s'.task = s.task
  published : s'.published = s.published

namespace Elsewhere

variable {c : Config} {s s' : System}

theorem held (h : Elsewhere c s s') (hhl : Held c s) : Held c s' := by
  intro key session hr
  obtain ⟨i, hi, hk, hg⟩ := hhl key session (hr.of_fewer h.fewer)
  rw [h.rolledBack, h.stage, h.entrySynced, h.received]
  refine ⟨i, hi, fun hm => ?_, fun hm hs => ?_⟩
  · obtain ⟨hs, hsy, hh⟩ := hk hm
    rw [h.data i hs]
    exact ⟨hs, hsy, hh⟩
  · rw [h.data i hs]
    exact hg hm hs

theorem quiet (h : Elsewhere c s s') (hq : Quiet s) : Quiet s' := by
  refine ⟨?_, h.apart hq.2⟩
  rw [EntrySafe, h.stage, h.entrySynced]
  exact hq.1

theorem sole (h : Elsewhere c s s') {tx : UploadTransaction} (hs : Sole c s tx) : Sole c s' tx := by
  intro key session hr hne
  rw [h.rolledBack]
  exact hs key session (hr.of_fewer h.fewer) hne

theorem phase (h : Elsewhere c s s') {tx : UploadTransaction} {phase : Phase}
    (hl : phase.Linked c s.sessions s.stage tx) (hp : phase.Content c s tx) :
    phase.Content c s' tx := by
  have hb : s'.bytes c tx = s.bytes c tx := by rw [System.bytes, h.received]; rfl
  have hd : s.stage = some tx.file → s'.data tx = s.data tx := h.data tx.file
  have hat : Attached c s.sessions s.stage tx → Attached c s'.sessions s'.stage tx := by
    intro ha
    rw [h.stage]
    exact ha.kept h.kept
  have hnw : s.stage = some tx.file → Unrecorded c s.sessions s.rolledBack (s.data tx) tx →
      Unrecorded c s'.sessions s'.rolledBack (s'.data tx) tx := by
    intro hs hn
    rw [hd hs, h.rolledBack]
    exact ⟨hn.fresh, hn.empty, hn.cursor, hn.queued,
      fun key session hr => hn.rolledBack key session (hr.of_fewer h.fewer)⟩
  cases phase with
  | initialCheckpoint => exact ⟨h.apart hp.1, hnw hl.2 hp.2⟩
  | truncating =>
    refine ⟨h.quiet hp.1, hp.2.1, hp.2.2.1, ?_⟩
    rw [hd hl.stage]
    exact hp.2.2.2
  | rebinding =>
    refine ⟨h.quiet hp.1, ?_, hp.2.2⟩
    rw [hd hl.2.stage, hb]
    exact hp.2.1
  | reserving =>
    refine ⟨h.quiet hp.1, ?_, hp.2.2⟩
    rw [hd hl.stage, hb]
    exact hp.2.1
  | transferring | transferFailed | transferred | replaying | starting =>
    refine ⟨h.quiet hp.1, ?_⟩
    rw [hd hl.stage, hb]
    exact hp.2
  | committing =>
    refine ⟨h.quiet hp.1, ?_⟩
    rw [hd hl.1, hb]
    exact hp.2
  | timedOut =>
    refine hp.imp ?_ ?_
    · rintro ⟨hap, hn⟩
      exact ⟨h.apart hap, hnw (hl.elim And.right Attached.stage) hn⟩
    rintro ⟨hqt, ha, hwr⟩
    refine ⟨h.quiet hqt, hat ha, ?_⟩
    rw [hd ha.stage, hb]
    exact hwr
  | recording record =>
    cases record with
    | committed | unknown => exact ⟨h.quiet hp.1, hp.2⟩
    | awaitingConfirmation =>
      refine ⟨h.quiet hp.1, hp.2.1, fun hs => ?_⟩
      rw [h.stage] at hs
      rw [hd hs, hb]
      exact hp.2.2 hs
  | removing | rejecting => exact ⟨h.quiet hp.1, hp.2⟩
  | discarding => exact ⟨h.apart hp.1, h.sole hp.2.1, hp.2.2⟩
  | resetting =>
    obtain ⟨hsf, hsl, hq, hap⟩ := hp
    refine ⟨?_, h.sole hsl, hq, hap.imp h.apart fun ha => ⟨hat ha.1, ha.2⟩⟩
    rw [EntrySafe, h.stage, h.entrySynced]
    exact hsf

theorem content (h : Elsewhere c s s') (hl : Linked c s) (hc : Content c s) : Content c s' := by
  refine ⟨h.held hc.held, fun hn => ?_, fun task ht => ?_, ?_⟩
  · rw [h.task] at hn
    exact h.quiet (hc.idle hn)
  · rw [h.task] at ht
    have htc := hc.task task ht
    cases task with
    | transaction tx ph => exact h.phase (hl.task _ ht).2 htc
    | looking | inspecting | preserving | creating | reopening => exact h.quiet htc
  · rw [h.published]
    exact hc.published

end Elsewhere

/-- An orphan writes to the stage only while a fresh upload is rolled back. -/
theorem Content.apart_or (h : Content c s) :
    Apart s ∨ ∃ tx rej, s.task = some (.transaction tx (.resetting rej)) ∧
      EntrySafe s ∧ Sole c s tx ∧ tx.queued = [] ∧ Attached c s.sessions s.stage tx ∧
      tx.resume = false := by
  cases ht : s.task with
  | none => exact Or.inl (h.idle ht).2
  | some task =>
    have htc := h.task task ht
    cases task with
    | looking | inspecting | preserving | creating | reopening => exact Or.inl htc.2
    | transaction tx ph =>
      cases ph with
      | initialCheckpoint | discarding => exact Or.inl htc.1
      | truncating | rebinding | reserving | transferring | transferFailed | transferred
      | replaying | starting | committing | removing | rejecting => exact Or.inl htc.1.2
      | timedOut => exact htc.elim (fun h => Or.inl h.1) fun h => Or.inl h.1.2
      | recording rec => cases rec <;> exact Or.inl htc.1.2
      | resetting rej =>
        obtain ⟨hs, hsl, hq, ha | ⟨hat, hf⟩⟩ := htc
        · exact Or.inl ha
        · exact Or.inr ⟨tx, rej, rfl, hs, hsl, hq, hat, hf⟩

theorem landOrphan_content {index b : ℕ} (h : s.landOrphan index b = some s')
    (hl : Linked c s) (hc : Content c s) :
    Content c s' := by
  simp only [System.landOrphan, Option.map_eq_some_iff] at h
  obtain ⟨o, hg, rfl⟩ := h
  have hm : o ∈ s.orphans := List.mem_of_getElem? hg
  obtain ha | ⟨tx, rej, ht, hs, hsl, hq, hat, hf⟩ :=
    hc.apart_or
  · refine Elsewhere.content (s := s) ⟨rfl, rfl, fun i hi => ?_, rfl, rfl, fun _ => ?_, fun _ _ ho => ho,
      fun _ _ hr _ => hr, rfl, rfl⟩ hl hc
    · have hne : i ≠ o.file := by
        rintro rfl
        exact ha o hm hi
      simp [System.updateData, Function.update_of_ne hne]
    · intro o' hm'
      obtain hm' | rfl := List.mem_or_eq_of_mem_set hm'
      · exact ha o' hm'
      · exact ha o hm
  · -- The session of the fresh upload counts no byte of the file.
    have hz : tx.initialOffset = 0 :=
      tx.initialOffset_of_fresh (tx.fresh_of_resume hf)
    refine ⟨held_of_attached hat hl.rows hs ?_ fun _ => hz, fun hn => ?_,
      fun task hsm => ?_, hc.published⟩
    · rw [hz]
      exact .zero _ _
    · rw [show s.task = none from hn] at ht
      cases ht
    · obtain rfl : _ = task := Option.some.inj (ht.symm.trans hsm)
      exact ⟨hs, hsl, hq, Or.inr ⟨hat, hf⟩⟩

theorem crash_content (h : Content c s) (keep : Bool) (tail : List UInt8) :
    Content c (s.crash keep tail) := by
  refine ⟨fun key session hr => ?_, fun _ => ⟨fun _ => rfl, fun _ hm => by cases hm⟩,
    fun task ht => (by cases ht), h.published⟩
  obtain ⟨i, hi, hk, hg⟩ := h.held key session hr
  refine ⟨i, hi, fun hm => ?_, fun hm hs => ?_⟩
  · obtain ⟨hs, hsy, hh⟩ := hk hm
    refine ⟨?_, rfl, ?_⟩
    · simp only [System.crash, hsy, Bool.or_true, if_true]
      exact hs
    · simp only [System.crash, hs, if_true]
      exact hh.crash tail
  · have hs : s.stage = some i := by
      simp only [System.crash] at hs
      split_ifs at hs with hkp
      exact hs
    simp only [System.crash, hs, if_true]
    exact hg hm hs

/-- Every step keeps the content. -/
theorem Content.step {e : Event} (h : Content c s) (hl : Linked c s) (hwi : Within e)
    (hs : s.step c e = some s') : Content c s' := by
  cases e with
  | prepare | transfer | commit | rollback =>
    obtain ⟨task, ht, hs⟩ := System.exists_task_of_match hs
    exact taskStep_content hs hwi hl.rows (hl.task task ht) h.held h.published (h.task task ht)
  | request r =>
    simp only [System.step, Option.ite_none_right_eq_some, Option.some.injEq] at hs
    obtain ⟨⟨-, hn⟩, rfl⟩ := hs
    refine .early h.held h.published (h.idle hn) fun task hm => ?_
    cases hm
    trivial
  | orphan index bytes => exact landOrphan_content hs hl h
  | orphanFails index =>
    cases hs
    exact Elsewhere.content (s := s) ⟨rfl, rfl, fun _ _ => rfl, rfl, rfl,
      fun ha orphan hm => ha orphan (List.mem_of_mem_eraseIdx hm), fun _ _ ho => ho,
      fun _ _ hr _ => hr, rfl, rfl⟩ hl h
  | target entry =>
    cases hs
    exact Elsewhere.content (s := s) ⟨rfl, rfl, fun _ _ => rfl, rfl, rfl, id, fun _ _ ho => ho,
      fun _ _ hr _ => hr, rfl, rfl⟩ hl h
  | storeElsewhere | removeElsewhere =>
    obtain ⟨sessions, rfl, ho, hk⟩ := sessions_elsewhere hs (by simp)
    exact Elsewhere.content (s := s) ⟨rfl, rfl, fun _ _ => rfl, rfl, rfl, id, ho, hk, rfl, rfl⟩ hl h
  | crash keep tail =>
    simp only [System.step, Option.ite_none_right_eq_some, Option.some.injEq] at hs
    obtain ⟨-, rfl⟩ := hs
    exact crash_content h keep tail
  | restart now =>
    simp only [System.step, Option.ite_none_right_eq_some] at hs
    obtain ⟨⟨-, hn⟩, hs⟩ := hs
    obtain ⟨sessions, hrc, -, rfl⟩ := restart_eq_some hs
    refine ⟨h.held.fewer fun key session ho => ho.of_recovered hrc, fun _ => h.idle hn,
      fun task ht => ?_, h.published⟩
    rw [show s.task = some task from ht] at hn
    cases hn

/-- The content holds in every reachable state. -/
theorem reachable_content (h : (machine c target).Reachable (fun _ e => Within e) s) :
    Content c s := by
  induction h with
  | init =>
    refine ⟨held_of_not_resumable ?_, fun _ => ⟨fun hsm => (by cases hsm),
      fun _ hm => by cases hm⟩, fun _ ht => (by cases ht), fun _ hm => by cases hm⟩
    rintro key session ⟨⟨⟨exp, hg⟩, -, -⟩, -⟩
    cases hg
  | step hs hwi hst ih => exact ih.step (reachable_linked hs) hwi hst

/-! ## What was received -/

theorem receiveChunk_received (s : System) (c : Config) (tx : UploadTransaction) (rem : ℕ)
    (data : List UInt8) (f : Option ChunkFault) :
    (s.receiveChunk c tx rem data f).received =
      Function.update s.received (c.key tx.request.owner)
        (s.received (c.key tx.request.owner) ++ data) := by
  unfold System.receiveChunk
  simp only
  split_ifs
  · rfl
  · rfl
  · cases f with
    | none => rfl
    | some f => cases f <;> rfl

/-- What an offset counts is not received again. -/
theorem received_take {e : Event} (hl : Linked c s) (hs : s.step c e = some s')
    (ho : Owns c s.sessions key session) {n : ℕ} (hn : n ≤ session.durableOffset)
    (hle : n ≤ (s.received key).length) :
    (s'.received key).take n = (s.received key).take n := by
  by_cases he : e.IsFramed
  · rw [(step_frame he hs).received]
  obtain ⟨task, ht, hts⟩ := task_of_step he hs
  have hln := hl.task task ht
  cases e with
  | prepare e =>
    cases e with
    | create file =>
      cases task with
      | creating p =>
        simp only [System.taskStep, System.prepareStep, System.createStage] at hts
        split_ifs at hts <;> cases hts <;> rfl
      | transaction tx ph => cases ph <;> cases hts
      | looking | inspecting | preserving | reopening => cases hts
    | begin =>
      cases task with
      | transaction tx ph =>
        cases ph with
        | reserving =>
          cases hts
          by_cases hk : key = c.key tx.request.owner
          · -- The transfer begins at the offset of the session.
            obtain ⟨rev, how⟩ := hln.2.owns
            subst hk
            obtain ⟨exp, hg⟩ := how.stored
            have hof : session.durableOffset = tx.initialOffset := by
              rw [ho.eq hg]
              rfl
            rw [hof] at hn
            simp [System.begin, System.setReceived, System.enter, List.take_take, hn]
          · simp [System.begin, System.setReceived, System.enter, Function.update_of_ne hk]
        | _ => cases hts
      | looking | inspecting | preserving | creating | reopening => cases hts
    | _ => exact absurd trivial he
  | transfer e =>
    cases e with
    | chunk data f =>
      cases task with
      | transaction tx ph =>
        cases ph with
        | transferring rem =>
          cases hts
          rw [receiveChunk_received]
          by_cases hk : key = c.key tx.request.owner
          · subst hk
            rw [Function.update_self, List.take_append_of_le_length hle]
          · rw [Function.update_of_ne hk]
        | _ => cases hts
      | looking | inspecting | preserving | creating | reopening => cases hts
    | _ => exact absurd trivial he
  | commit e =>
    cases task with
    | transaction tx ph =>
      cases e with
      | replay r =>
        cases ph with
        | replaying =>
          cases hts
          unfold System.replay
          split
          · rfl
          · rfl
          · rename_i md chg hm
            cases chg <;> simp only <;> split_ifs <;> rfl
        | _ => cases hts
      | commit spc r =>
        cases ph with
        | committing =>
          simp only [System.taskStep, System.commitStep, System.commit] at hts
          have ha : ∀ (s₁ : System) out, (s₁.afterCommit tx out).received = s₁.received := by
            intro s₁ out
            cases out <;> rfl
          split_ifs at hts
          · cases hts
            rfl
          · split at hts
            · cases hts
              rw [ha]
            · cases hts
              rw [ha]
              rfl
        | _ => cases hts
      | _ => exact absurd trivial he
    | looking | inspecting | preserving | creating | reopening => cases hts
  | _ => exact absurd trivial he

/-- While a session owns the stage, its offset only grows, its file stays, and the bytes the
    offset counts are not received again. -/
theorem steps_received {ok : System → Event → Prop} (hs : (machine c target).Reachable ok s)
    (h : (machine c target).Steps
      (fun t e => ok t e ∧ ∃ session, Owns c t.sessions key session) s s')
    {sess' : StoredUploadSession Path} (ho : Owns c s.sessions key session)
    (ho' : Owns c s'.sessions key sess') (hln : session.durableOffset ≤ (s.received key).length) :
    session.durableOffset ≤ sess'.durableOffset ∧
      sess'.stageIdentity = session.stageIdentity ∧
      (s'.received key).take session.durableOffset =
        (s.received key).take session.durableOffset := by
  induction h generalizing sess' with
  | refl =>
    obtain ⟨exp, hg⟩ := ho.stored
    rw [ho'.eq hg]
    exact ⟨le_rfl, rfl, rfl⟩
  | @tail t u e hst hok hsp ih =>
    obtain ⟨sess₁, ho₁⟩ := hok.2
    obtain ⟨hle, hid, ht⟩ := ih ho₁
    have hl := reachable_linked (hs.steps (hst.mono fun _ _ h => h.1))
    obtain ⟨hle', hid'⟩ := (hl.since hsp).sessions.keeps hl.rows ho₁ ho'
    have hl₁ : session.durableOffset ≤ (t.received key).length := by
      have := congrArg List.length ht
      rw [List.length_take, List.length_take, min_eq_left hln] at this
      exact min_eq_left_iff.mp this
    refine ⟨hle.trans hle', hid'.trans hid, ?_⟩
    rw [received_take hl hsp ho₁ hle hl₁, ht]

theorem inode_of_stage {i : FileIdentity} (h : s.stage = some i) :
    s.inode i = some (s.files i) := by
  simp [System.inode, System.live, h]

/-- What a stored offset counts is in the recorded stage. -/
theorem stage_of_resumable (h : (machine c target).Reachable (fun _ e => Within e) s)
    (hr : Resumable c s.sessions key session) (hk : key ∉ s.rolledBack) :
    ∃ i, session.stageIdentity = some i ∧ s.stage = some i ∧
      (s.files i).data.Holds session.durableOffset (s.received key) := by
  obtain ⟨i, hi, hh, -⟩ := (reachable_content h).held key session hr
  obtain ⟨hs, -, hh⟩ := hh hk
  exact ⟨i, hi, hs, hh⟩

/-- Whatever requests, interruptions and crashes happened, as long as no rollback and no `fstat` of
    the open stage failed: the first `durableOffset` bytes of
    the recorded stage are those received, as long as no rollback has removed the stage since
    the session was stored; neither changes while the session lives; and a published file has
    the declared length and is what was received. -/
theorem stage_holds_received (c : Config) (target : Option TargetEntry) :
    (∀ s, (machine c target).Reachable (fun _ e => Within e) s →
      ∀ key session, Resumable c s.sessions key session → key ∉ s.rolledBack →
      ∃ i file, session.stageIdentity = some i ∧ s.stage = some i ∧ s.inode i = some file ∧
        session.durableOffset ≤ (s.received key).length ∧
        file.data.content.take session.durableOffset =
          (s.received key).take session.durableOffset) ∧
    (∀ s s' key, (machine c target).Reachable (fun _ e => Within e) s →
      (machine c target).Steps
        (fun t e => Within e ∧ ∃ session, Owns c t.sessions key session) s s' →
      ∀ session session', Resumable c s.sessions key session → key ∉ s.rolledBack →
      Owns c s'.sessions key session' →
      session.durableOffset ≤ session'.durableOffset ∧
      (s'.received key).take session.durableOffset =
        (s.received key).take session.durableOffset ∧
      (Resumable c s'.sessions key session' → key ∉ s'.rolledBack →
        ∃ i file file', session.stageIdentity = some i ∧ session'.stageIdentity = some i ∧
          s.inode i = some file ∧ s'.inode i = some file' ∧
          file'.data.content.take session.durableOffset =
            file.data.content.take session.durableOffset)) ∧
    ∀ s, (machine c target).Reachable (fun _ e => Within e) s → ∀ p ∈ s.published,
      p.content.length = p.uploadLength ∧ p.content = p.received := by
  refine ⟨fun s hs key session hr hk => ?_, fun s s' key hs hsp session session' hr hk
    ho' => ?_, fun s hs p hp => (reachable_content hs).published p hp⟩
  · obtain ⟨i, hi, hst, hh⟩ := stage_of_resumable hs hr hk
    exact ⟨i, _, hi, hst, inode_of_stage hst, hh.length, hh.content⟩
  have hs' := hs.steps (hsp.mono fun _ _ h => h.1)
  obtain ⟨i, hi, hst, hh⟩ := stage_of_resumable hs hr hk
  obtain ⟨hle, hid, ht⟩ := steps_received hs hsp hr.1 ho' hh.length
  refine ⟨hle, ht, fun hr' hk' => ?_⟩
  obtain ⟨i', hi', hst', hh'⟩ := stage_of_resumable hs' hr' hk'
  obtain rfl : i = i' := by
    rw [hi, hi'] at hid
    exact (Option.some.inj hid).symm
  refine ⟨i, _, _, hi, hi', inode_of_stage hst, inode_of_stage hst', ?_⟩
  have hc := congrArg (List.take session.durableOffset) hh'.content
  rw [List.take_take, List.take_take, min_eq_left hle] at hc
  rw [hc, ht, hh.content]

/-! ### Stages that are lost or overwritten -/

/-- A fresh upload of two bytes, up to the first. -/
def freshUpload : List Event :=
  [.request ⟨7, .fresh, 2, .noReplace, none⟩, .prepare (.lookup false), .prepare .inspect,
    .prepare (.create ⟨1, 5⟩), .prepare (.persist 0 none), .prepare .begin,
    .transfer (.chunk [1] none)]

/-- It stops there, and is checkpointed. -/
def shortRun : List Event :=
  freshUpload ++ [.transfer .finished, .commit (.precommit none 0 none)]

/-- A continuation at an offset, up to the body. -/
def continuation (offset : ℕ) : List Event :=
  [.request ⟨7, .resume offset, 2, .noReplace, none⟩, .prepare (.lookup false), .prepare .inspect,
    .prepare (.reopen false), .prepare (.truncate false), .prepare .begin]

/-- The end of a body, up to the record of the commit. -/
def bodyReceived (data : List UInt8) : List Event :=
  [.transfer (.chunk data none), .transfer .finished, .commit (.precommit none 0 none),
    .commit (.replay .applied)]

def commitPublished : List Event :=
  [.commit (.start true 0 none), .commit (.commit true
    ⟨some (⟨.regularFile, 2, 0, 0, 0, (0, 0), (0, 0)⟩, []), .published⟩)]

/-- There is no space for the commit; the rollback has unlinked the stage when the server
    stops. -/
def crashedRollbackRun : List Event :=
  shortRun ++ continuation 1 ++ bodyReceived [2] ++
    [.commit (.start false 0 none), .rollback none, .crash true []]

/-- A fresh upload is cut off with its first byte under way, and its rollback fails. The byte
    arrives after those of the continuation. -/
def failedRollbackRun : List Event :=
  freshUpload ++ [.transfer (.stop .io), .commit (.settle ⟨0, false, none, none⟩),
    .rollback (some (.unlink .fails))] ++ continuation 0 ++ bodyReceived [8, 9] ++
    .orphan 0 1 :: commitPublished

/-- A continuation is cut off with its byte under way, and the size of the stage cannot be read.
    The byte arrives after that of the next continuation. -/
def unreadableStageRun : List Event :=
  shortRun ++ continuation 1 ++
    [.transfer (.chunk [2] none), .transfer (.stop .io), .commit (.settle ⟨0, true, none, none⟩)] ++
    continuation 1 ++ bodyReceived [3] ++ .orphan 0 1 :: commitPublished

def rowWithoutStage (s : System) : Bool :=
  decide ((s.sessions.get ⟨7, 1⟩).map UploadRow.session =
    some ⟨["t"], ["s"], 2, 1, .running, some ⟨1, 5⟩, none⟩) && decide (s.inode ⟨1, 5⟩ = none)

/-- What was published is not what was received. -/
def publishedOther (content received : List UInt8) (s : System) : Bool :=
  s.published.any fun p => decide (p.content = content) && decide (p.received = received)

theorem exists_published_other {ok : System → Event → Prop} (es : List Event)
    {content received : List UInt8} (hok : ∀ e ∈ es, ∀ s, ok s e)
    (h : ((machine exampleConfig none).run es).any (publishedOther content received) = true) :
    ∃ s, (machine exampleConfig none).Reachable ok s ∧
      ∃ p ∈ s.published, p.content = content ∧ p.received = received := by
  obtain ⟨s, hs, hp⟩ := Machine.exists_reachable_of_run (machine exampleConfig none) es
    (publishedOther content received) hok h
  obtain ⟨p, hp, heq⟩ := List.any_eq_true.mp hp
  rw [Bool.and_eq_true, decide_eq_true_iff, decide_eq_true_iff] at heq
  exact ⟨s, hs, p, hp, heq⟩

/-- A rollback removes the stage before the row, so a crash in between leaves a row whose
    offset counts a byte of a file that is gone. A rollback that fails, and an `fstat` that fails
    for a continuation, leave a write under way (`upload/transfer.rs`, lines 363-374 and 182-184)
    that overwrites what is received next. -/
theorem stage_lost_or_overwritten :
    (∃ s, (machine exampleConfig none).Reachable (fun _ e => Within e) s ∧
      ∃ key session i, Resumable exampleConfig s.sessions key session ∧
        session.state = .running ∧ session.durableOffset = 1 ∧
        session.stageIdentity = some i ∧ s.inode i = none) ∧
    (∃ s, (machine exampleConfig none).Reachable
        (fun _ e => Within e ∨ ∃ fault, e = .rollback fault) s ∧
      ∃ p ∈ s.published, p.content = [1, 9] ∧ p.received = [8, 9]) ∧
    ∃ s, (machine exampleConfig none).Reachable
        (fun _ e => Within e ∨ ∃ f, e = .commit (.settle f)) s ∧
      ∃ p ∈ s.published, p.content = [1, 2] ∧ p.received = [1, 3] := by
  refine ⟨?_, exists_published_other failedRollbackRun
    (by simp [failedRollbackRun, freshUpload, continuation, bodyReceived, commitPublished, Within])
    (by decide +kernel), exists_published_other unreadableStageRun
    (by simp [unreadableStageRun, shortRun, freshUpload, continuation, bodyReceived,
      commitPublished, Within])
    (by decide +kernel)⟩
  obtain ⟨s, hs, hp⟩ := Machine.exists_reachable_of_run (machine exampleConfig none)
    crashedRollbackRun rowWithoutStage
    (show ∀ e ∈ crashedRollbackRun, ∀ _ : System, Within e by
      simp [crashedRollbackRun, shortRun, freshUpload, continuation, bodyReceived, Within])
    (by decide +kernel)
  simp only [rowWithoutStage, Bool.and_eq_true, decide_eq_true_iff, Option.map_eq_some_iff] at hp
  obtain ⟨⟨⟨session, expiresAt⟩, hgt, rfl⟩, hg⟩ := hp
  exact ⟨s, hs, _, _, _, ⟨⟨⟨expiresAt, hgt⟩, rfl, rfl⟩, by decide⟩, rfl, rfl, rfl, hg⟩

end DufsRam.Upload
