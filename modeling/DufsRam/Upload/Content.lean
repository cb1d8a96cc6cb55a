import DufsRam.Upload.Linked

/-!
# The content of a stage

The bytes that the offset of a stored session counts are in the stage, they are those that
were received, and a crash does not lose them.

The invariant has a part for the rows (`Held`) and one for the point where the running
request is (`Phase.Content`). The rows of sessions whose stage a rollback has removed are
exempt until they are stored again: the row goes last, so a crash can leave it behind.

Results:
* `held_of_attached`: while a request has the stage open, its own row is all there is to say.
* `held_of_persisted`: a record keeps the rows held.
* `Writing.land`: what is queued arrives in order.
-/

namespace DufsRam.Upload

open StateStore RootedFs

/-! ## The invariant -/

/-- A session that can be resumed or confirmed. -/
def Resumable (c : Config) (sessions : UploadSessions Path) (key : UploadSessionKey)
    (session : StoredUploadSession Path) : Prop :=
  Owns c sessions key session ∧ session.state ≠ .commitStarted

/-- The stage of a session that can be resumed holds the bytes its offset counts. After a
    rollback the identity may be that of a later file, which is too short for the offset. -/
def Held (c : Config) (s : System) : Prop :=
  ∀ key session, Resumable c s.sessions key session → ∃ i, session.stageIdentity = some i ∧
    (key ∉ s.rolledBack → s.stage = some i ∧ s.entrySynced = true ∧
      (s.files i).data.Holds session.durableOffset (s.received key)) ∧
    (key ∈ s.rolledBack → s.stage = some i →
      session.durableOffset = 0 ∨ (s.files i).data.extent < session.durableOffset)

/-- No orphan writes to the stage. -/
def Apart (s : System) : Prop := ∀ orphan ∈ s.orphans, s.stage ≠ some orphan.file

/-- A crash does not lose the entry of the stage. -/
def EntrySafe (s : System) : Prop := s.stage.isSome = true → s.entrySynced = true

def Quiet (s : System) : Prop := EntrySafe s ∧ Apart s

/-- The data of the open file. -/
def System.data (s : System) (tx : UploadTransaction) : DurableFile UInt8 := (s.files tx.file).data

/-- The bytes that count as received for the session of a transaction. -/
def System.bytes (s : System) (c : Config) (tx : UploadTransaction) : List UInt8 :=
  s.received (c.key tx.request.owner)

/-- The file and the queue are what was received, in order, within the declared length. -/
structure Writing (f : DurableFile UInt8) (bytes : List UInt8) (tx : UploadTransaction) : Prop where
  position : f.content.length = tx.cursor
  written : f.content ++ tx.queued <+: bytes
  offset : tx.initialOffset ≤ tx.cursor
  bound : tx.cursor + tx.queued.length ≤ tx.request.uploadLength

/-- Everything was received and has reached the file. -/
structure Complete (f : DurableFile UInt8) (bytes : List UInt8) (tx : UploadTransaction) :
    Prop where
  writing : Writing f bytes tx
  queued : tx.queued = []
  content : f.content = bytes
  length : bytes.length = tx.request.uploadLength

/-- A new stage that no session records. -/
structure Unrecorded (c : Config) (sessions : UploadSessions Path)
    (rolledBack : List UploadSessionKey) (f : DurableFile UInt8) (tx : UploadTransaction) :
    Prop where
  fresh : tx.request.mode = .fresh
  empty : f = .new
  cursor : tx.cursor = 0
  queued : tx.queued = []
  rolledBack : ∀ key session, Resumable c sessions key session → key ∈ rolledBack

/-- The stage is no other session's. -/
def Sole (c : Config) (s : System) (tx : UploadTransaction) : Prop :=
  ∀ key session, Resumable c s.sessions key session → key ≠ c.key tx.request.owner →
    key ∈ s.rolledBack

/-- What each phase knows of the file, the queue and the orphans. -/
def Phase.Content (c : Config) (s : System) (tx : UploadTransaction) : Phase → Prop
  | .initialCheckpoint => Apart s ∧ Unrecorded c s.sessions s.rolledBack (s.data tx) tx
  | .truncating => Quiet s ∧ tx.cursor = tx.initialOffset ∧ tx.queued = [] ∧
      tx.initialOffset ≤ (s.data tx).content.length
  | .rebinding | .reserving => Quiet s ∧ Writing (s.data tx) (s.bytes c tx) tx ∧ tx.queued = [] ∧
      tx.cursor = tx.initialOffset
  | .transferring remaining => Quiet s ∧ Writing (s.data tx) (s.bytes c tx) tx ∧
      (s.data tx).content ++ tx.queued = s.bytes c tx ∧
      remaining + (s.bytes c tx).length = tx.request.uploadLength
  | .transferFailed _ => Quiet s ∧ Writing (s.data tx) (s.bytes c tx) tx
  | .timedOut => (Apart s ∧ Unrecorded c s.sessions s.rolledBack (s.data tx) tx) ∨
      (Quiet s ∧ Attached c s.sessions s.stage tx ∧ Writing (s.data tx) (s.bytes c tx) tx)
  | .transferred => Quiet s ∧ Writing (s.data tx) (s.bytes c tx) tx ∧
      (s.data tx).content ++ tx.queued = s.bytes c tx
  | .replaying | .starting | .committing => Quiet s ∧ Complete (s.data tx) (s.bytes c tx) tx
  | .recording .awaitingConfirmation => Quiet s ∧ tx.queued = [] ∧
      (s.stage = some tx.file → Complete (s.data tx) (s.bytes c tx) tx)
  | .recording .committed | .recording .unknown | .removing _ _ | .rejecting =>
    Quiet s ∧ tx.queued = []
  | .discarding _ => Apart s ∧ Sole c s tx ∧ tx.queued = []
  | .resetting _ => EntrySafe s ∧ Sole c s tx ∧ tx.queued = [] ∧
      (Apart s ∨ Attached c s.sessions s.stage tx ∧ tx.resume = false)

/-- What a request knows of the stage. -/
def Task.Content (c : Config) (s : System) : Task → Prop
  | .transaction tx phase => phase.Content c s tx
  | .looking _ | .inspecting _ _ | .preserving _ _ | .creating _ | .reopening _ => Quiet s

/-- A publication has the declared length and is what was received. -/
def Publication.Exact (p : Publication) : Prop :=
  p.content.length = p.uploadLength ∧ p.content = p.received

structure Content (c : Config) (s : System) : Prop where
  held : Held c s
  idle : s.task = none → Quiet s
  task : ∀ task ∈ s.task, task.Content c s
  published : ∀ p ∈ s.published, p.Exact

/-! ## Held rows -/

variable {c : Config} {t : UploadSessions Path} {s s' : System} {now : ℤ}
  {state : StoredUploadState} {durableOffset : ℕ} {ok : Bool}

theorem Resumable.of_fewer {t' : UploadSessions Path}
    (hs : ∀ key session, Owns c t' key session → Owns c t key session) {key : UploadSessionKey}
    {session : StoredUploadSession Path} (h : Resumable c t' key session) :
    Resumable c t key session :=
  ⟨hs key session h.1, h.2⟩

/-- Fewer rows are held. -/
theorem Held.fewer (h : Held c s)
    (hs : ∀ key sess, Owns c t key sess → Owns c s.sessions key sess) :
    Held c { s with sessions := t } :=
  fun key sess hr => h key sess (hr.of_fewer hs)

theorem Held.sync_entry (h : Held c s) (b : Bool) :
    Held c { s with entrySynced := s.entrySynced || b } := by
  intro key sess hr
  obtain ⟨i, hi, hk, hg⟩ := h key sess hr
  refine ⟨i, hi, fun hm => ?_, hg⟩
  obtain ⟨hs, hsy, hh⟩ := hk hm
  exact ⟨hs, by simp [hsy], hh⟩

section Attached

variable {c : Config} {s : System} {tx : UploadTransaction}

/-- While a request has the stage open, only its session can be resumed. -/
theorem Attached.resumable_eq (h : Attached c s.sessions s.stage tx)
    (hrw : RowsSound c s.sessions) {key : UploadSessionKey}
    {sess : StoredUploadSession Path} (hr : Resumable c s.sessions key sess) :
    key = c.key tx.request.owner ∧
      ∃ targetRevision, sess = c.sessionOf tx tx.rowState tx.initialOffset targetRevision := by
  obtain ⟨targetRevision, ho⟩ := h.owns
  obtain rfl := hrw.unique _ _ _ _ hr.1 ho
  obtain ⟨exp, hg⟩ := ho.stored
  exact ⟨rfl, targetRevision, hr.1.eq hg⟩

theorem Attached.sole (h : Attached c s.sessions s.stage tx) (hrw : RowsSound c s.sessions) :
    Sole c s tx :=
  fun _ _ hr hne => absurd (h.resumable_eq hrw hr).1 hne

/-- What the row of an open stage says when the file is long enough for its offset. -/
theorem Held.backed (hh : Held c s) (h : Attached c s.sessions s.stage tx)
    (hl : tx.initialOffset ≤ (s.data tx).content.length) :
    (s.data tx).Holds tx.initialOffset (s.bytes c tx) ∧
      (c.key tx.request.owner ∈ s.rolledBack → tx.initialOffset = 0) := by
  obtain ⟨rev, ho⟩ := h.owns
  have hs : tx.rowState ≠ .commitStarted := by
    unfold UploadTransaction.rowState
    split_ifs <;> simp
  obtain ⟨i, hi, hk, hg⟩ := hh _ _ ⟨ho, hs⟩
  obtain rfl : tx.file = i := Option.some.inj hi
  have hz : c.key tx.request.owner ∈ s.rolledBack → tx.initialOffset = 0 := by
    intro hm
    obtain hz | hsh := hg hm h.stage
    · exact hz
    · have he : (s.data tx).content.length ≤ (s.data tx).extent := (s.data tx).length_le
      have : (s.data tx).extent < tx.initialOffset := hsh
      omega
  refine ⟨?_, hz⟩
  by_cases hm : c.key tx.request.owner ∈ s.rolledBack
  · rw [hz hm]
    exact .zero _ _
  · exact (hk hm).2.2

/-- While a request has the stage open, its own row is all there is to say. -/
theorem held_of_attached (h : Attached c s.sessions s.stage tx) (hrw : RowsSound c s.sessions)
    (hs : EntrySafe s) (hh : (s.data tx).Holds tx.initialOffset (s.bytes c tx))
    (hz : c.key tx.request.owner ∈ s.rolledBack → tx.initialOffset = 0) : Held c s := by
  intro key sess hr
  obtain ⟨rfl, rev, rfl⟩ := h.resumable_eq hrw hr
  refine ⟨tx.file, rfl, fun _ => ⟨h.stage, hs (by simp [h.stage]), hh⟩, fun hm _ => ?_⟩
  exact Or.inl (hz hm)

end Attached

variable {tx : UploadTransaction}

/-- Once a commit is recorded no session can be resumed. -/
theorem CommitRecorded.not_resumable {ses : UploadSessions Path}
    (h : CommitRecorded c ses tx) (hr : RowsSound c ses) (key : UploadSessionKey)
    (session : StoredUploadSession Path) :
    ¬ Resumable c ses key session := by
  rintro ⟨ho, hs⟩
  obtain ⟨rev, exp, hg⟩ := h
  obtain rfl := hr.unique _ _ _ _ ho ⟨⟨exp, hg⟩, rfl, rfl⟩
  rw [ho.eq hg] at hs
  exact hs rfl

/-- A record of the open stage keeps the rows held. -/
theorem held_of_persisted {rev : Option Digest} (h : Persisted s now (c.key tx.request.owner)
      (c.sessionOf tx state durableOffset rev) ok s') (hl : state.isTerminal = false)
    (hh : Held c s) (hs : s.stage = some tx.file) (hsy : s.entrySynced = true)
    (hhl : (s.data tx).Holds durableOffset (s.bytes c tx)) :
    Held c s' := by
  cases h with
  | refused => exact hh
  | swept => exact hh.fewer fun _ _ ho => ho.of_swept
  | stored ok exp ha =>
    intro key sess hr
    obtain ⟨rfl, rfl⟩ := owns_of_saved ha rfl hl hr.1
    have hn : c.key tx.request.owner ∉ (if state.isTerminal then s.rolledBack
          else s.rolledBack.filter fun k => decide (k ≠ c.key tx.request.owner)) := by
      simp [hl]
    exact ⟨tx.file, rfl, fun _ => ⟨hs, hsy, hhl⟩, fun hm => absurd hm hn⟩

/-! ## The queue -/

section Queue

variable {s s₁ : System} {tx tx₁ : UploadTransaction} {f : DurableFile UInt8} {bytes : List UInt8}

@[simp] theorem data_updateData (s : System) (tx : UploadTransaction)
    (f : DurableFile UInt8 → DurableFile UInt8) :
    (s.updateData tx.file f).data tx = f (s.data tx) := by
  simp [System.data, System.updateData]

theorem updateData_eq_self {f : DurableFile UInt8 → DurableFile UInt8}
    (h : f (s.data tx) = s.data tx) : s.updateData tx.file f = s := by
  have hf : ({ s.files tx.file with data := f (s.files tx.file).data } : StageFile) =
      s.files tx.file := by
    rw [show f (s.files tx.file).data = (s.files tx.file).data from h]
  unfold System.updateData
  rw [hf, Function.update_eq_self]

theorem data_land (s : System) (tx : UploadTransaction) (k : ℕ) :
    (s.land tx k).1.data tx = (s.data tx).writeAt 0 tx.cursor (tx.queued.take k) :=
  data_updateData s tx fun f => f.writeAt 0 tx.cursor (tx.queued.take k)

theorem data_land_sync (s : System) (tx : UploadTransaction) (k : ℕ) :
    ((s.land tx k).1.updateData tx.file DurableFile.sync).data (s.land tx k).2 =
      ((s.land tx k).1.data tx).sync :=
  data_updateData _ tx DurableFile.sync

theorem Writing.content_land (h : Writing (s.data tx) bytes tx) (k : ℕ) :
    ((s.land tx k).1.data tx).content = (s.data tx).content ++ tx.queued.take k := by
  rw [data_land, ← h.position]
  exact DurableFile.content_writeAt_length 0 _ _

/-- What is queued arrives in order. -/
theorem Writing.land (h : Writing (s.data tx) bytes tx) (k : ℕ) :
    Writing ((s.land tx k).1.data tx) bytes (s.land tx k).2 := by
  have hb := h.bound
  have hq : (tx.queued.take k).length + (tx.queued.drop k).length = tx.queued.length := by
    rw [← List.length_append, List.take_append_drop]
  refine ⟨?_, ?_, ?_, ?_⟩
  · rw [h.content_land, List.length_append, h.position]
    rfl
  · rw [h.content_land]
    show (s.data tx).content ++ tx.queued.take k ++ tx.queued.drop k <+: bytes
    rw [List.append_assoc, List.take_append_drop]
    exact h.written
  · exact h.offset.trans (Nat.le_add_right _ _)
  · show tx.cursor + (tx.queued.take k).length + (tx.queued.drop k).length ≤ tx.request.uploadLength
    omega

/-- The rest of the queue is lost. -/
theorem Writing.clear (h : Writing f bytes tx) : Writing f bytes { tx with queued := [] } := by
  refine ⟨h.position, ?_, h.offset, (Nat.le_add_right _ _).trans h.bound⟩
  simpa using (List.prefix_append _ _).trans h.written

theorem Writing.content_isPrefixOf (h : Writing f bytes tx) : f.content <+: bytes :=
  (List.prefix_append _ _).trans h.written

theorem Writing.offset_le_length (h : Writing f bytes tx) :
    tx.initialOffset ≤ f.content.length := by
  rw [h.position]
  exact h.offset

theorem Writing.sync (h : Writing f bytes tx) : Writing f.sync bytes tx :=
  ⟨h.position, h.written, h.offset, h.bound⟩

theorem Flushed.writing (h : Flushed s tx s₁ tx₁) (hwr : Writing (s.data tx) bytes tx) :
    Writing (s₁.data tx₁) bytes tx₁ := by
  cases h with
  | lost landed => exact (hwr.land landed).clear
  | landed => exact hwr.land _
  | synced =>
    rw [data_land_sync]
    exact (hwr.land _).sync

/-- The part of the file below the position is not touched. -/
theorem Flushed.holds (h : Flushed s tx s₁ tx₁) {n : ℕ} (hn : n ≤ tx.cursor)
    (hh : (s.data tx).Holds n bytes) : (s₁.data tx₁).Holds n bytes := by
  have hl : ∀ k, ((s.land tx k).1.data tx).Holds n bytes := by
    intro k
    rw [data_land]
    exact hh.writeAt 0 hn _
  cases h with
  | lost landed => exact hl landed
  | landed => exact hl _
  | synced =>
    rw [data_land_sync]
    exact (hl _).sync

/-- A file with nothing to write stays as it is. -/
theorem Flushed.unqueued (h : Flushed s tx s₁ tx₁) (hq : tx.queued = []) :
    tx₁ = tx ∧ (s₁.data tx₁).content = (s.data tx).content := by
  obtain ⟨p, file, cur, qd⟩ := tx
  subst hq
  cases h <;> simp [System.land, System.data, System.updateData, DurableFile.writeAt,
    DurableFile.sync]

/-- Cutting the stage back leaves what the offset counts. -/
theorem cutBack_holds {flt : Option System.TruncateFault} {ok : Bool}
    (h : s.cutBack tx flt = (ok, s₁, tx₁)) (hc : tx.initialOffset ≤ tx.cursor)
    (hh : (s.data tx).Holds tx.initialOffset bytes) :
    (s₁.data tx₁).Holds tx.initialOffset bytes := by
  have hl : ∀ k, ((s.land tx k).1.data tx).Holds tx.initialOffset bytes := by
    intro k
    rw [data_land]
    exact hh.writeAt 0 hc _
  cases flt with
  | none =>
    cases h
    rw [data_updateData]
    exact ((hl _).setLen 0 le_rfl).sync
  | some flt =>
    cases flt with
    | setLen ld =>
      cases h
      exact hl ld
    | sync =>
      cases h
      rw [data_updateData]
      exact (hl _).setLen 0 le_rfl

end Queue

theorem UploadTransaction.initialOffset_of_fresh (h : tx.request.mode = .fresh) :
    tx.initialOffset = 0 := by
  simp [UploadTransaction.initialOffset, UploadRequest.initialOffset, h, UploadMode.offset]

section Unrecorded

variable {c : Config} {s s₁ : System} {tx tx₁ : UploadTransaction}

theorem Unrecorded.writing {ses : UploadSessions Path} {rolledBack : List UploadSessionKey}
    {f : DurableFile UInt8} (h : Unrecorded c ses rolledBack f tx) (bytes : List UInt8) :
    Writing f bytes tx := by
  rw [h.empty]
  refine ⟨h.cursor.symm, ?_, ?_, ?_⟩
  · rw [h.queued]
    exact List.nil_prefix
  · rw [tx.initialOffset_of_fresh h.fresh]
    exact Nat.zero_le _
  · rw [h.cursor, h.queued]
    exact Nat.zero_le _

/-- There is nothing to write to a new stage. -/
theorem Unrecorded.flushed (h : Unrecorded c s.sessions s.rolledBack (s.data tx) tx)
    (hf : Flushed s tx s₁ tx₁) : s₁ = s ∧ tx₁ = tx := by
  have hl : ∀ k, (s.land tx k).1 = s := by
    intro k
    have hd : (s.data tx).writeAt 0 tx.cursor (tx.queued.take k) = s.data tx := by
      rw [h.empty, h.cursor, h.queued]
      simp [DurableFile.writeAt, DurableFile.new]
    exact updateData_eq_self (f := fun f => f.writeAt 0 tx.cursor (tx.queued.take k)) hd
  refine ⟨?_, (hf.unqueued h.queued).1⟩
  cases hf with
  | lost landed => exact hl landed
  | landed => exact hl _
  | synced =>
    rw [hl]
    exact updateData_eq_self (f := DurableFile.sync) (by rw [h.empty]; rfl)

theorem Unrecorded.sole (h : Unrecorded c s.sessions s.rolledBack (s.data tx) tx) : Sole c s tx :=
  fun key sess hr _ => h.rolledBack key sess hr

end Unrecorded

/-! ## Where a step leads -/

variable {s₁ : System} {tx₁ : UploadTransaction}

theorem DataOnly.quiet (h : DataOnly s tx s₁ tx₁) (hq : Quiet s) : Quiet s₁ := by
  obtain ⟨-, f, rfl⟩ := h
  exact hq

theorem DataOnly.bytes (h : DataOnly s tx s₁ tx₁) (c : Config) : s₁.bytes c tx₁ = s.bytes c tx := by
  obtain ⟨⟨cur, qd, rfl⟩, f, rfl⟩ := h
  rfl

theorem DataOnly.published (h : DataOnly s tx s₁ tx₁) : s₁.published = s.published := by
  obtain ⟨-, f, rfl⟩ := h
  rfl

namespace Content

variable {c : Config} {s : System} {tx : UploadTransaction}

theorem enter {ph : Phase} (hh : Held c s) (hpb : ∀ p ∈ s.published, p.Exact)
    (hp : ph.Content c s tx) : Content c (s.enter tx ph) := by
  refine ⟨hh, (fun hn => by cases hn), fun task ht => ?_, hpb⟩
  cases ht
  cases ph with
  | recording rec => cases rec <;> exact hp
  | _ => exact hp

theorem finish (hh : Held c s) (hp : ∀ p ∈ s.published, p.Exact) (hqt : Quiet s)
    (hq : tx.queued = []) : Content c (s.finish tx) := by
  refine ⟨hh, fun _ => ⟨hqt.1, fun o hm => hqt.2 o ?_⟩, (fun task ht => by cases ht), hp⟩
  simpa [System.finish, System.dropFile, hq] using hm

theorem rollBack (hh : Held c s) (hp : ∀ p ∈ s.published, p.Exact) (hs : EntrySafe s)
    (hsl : Sole c s tx) (h : (tx.queued = [] ∧ Apart s) ∨
      (Attached c s.sessions s.stage tx ∧ tx.resume = false)) (rej : Bool) :
    Content c (s.rollBack tx rej) := by
  refine .enter hh hp ⟨hs, hsl, rfl, h.imp ?_ ?_⟩
  · rintro ⟨hq, ha⟩ o hm
    exact ha o (by simpa [System.dropFile, hq] using hm)
  · rintro ⟨hat, hf⟩
    exact ⟨⟨hat.stage, hat.row⟩, hf⟩

end Content

/-! ## Records of the open stage -/

/-- What a record leaves, whether it was stored or not. -/
structure Recorded (c : Config) (s : System) (tx : UploadTransaction) (ok : Bool) (s' : System)
    (tx' : UploadTransaction) : Prop where
  held : Held c s'
  sole : Sole c s' tx'
  apart : Apart s'
  safe : ok = true ∨ EntrySafe s → EntrySafe s'
  writing : Writing (s'.data tx') (s'.bytes c tx') tx'
  queued : tx'.queued = []
  unqueued : tx.queued = [] → tx' = tx ∧ (s'.data tx').content = (s.data tx).content
  bytes : s'.bytes c tx' = s.bytes c tx
  published : s'.published = s.published

theorem Sole.fewer (h : Sole c s tx)
    (hs : ∀ key sess, Owns c t key sess → Owns c s.sessions key sess) :
    Sole c { s with sessions := t } tx :=
  fun key sess hr => h key sess (hr.of_fewer hs)

theorem sole_of_persisted {rev : Option Digest} (h : Persisted s now (c.key tx.request.owner)
      (c.sessionOf tx state durableOffset rev) ok s') (hl : state.isTerminal = false)
    (hs : Sole c s tx) : Sole c s' tx := by
  cases h with
  | refused => exact hs
  | swept => exact hs.fewer fun _ _ ho => ho.of_swept
  | stored ok exp ha =>
    intro key sess hr hne
    exact absurd (owns_of_saved ha rfl hl hr.1).1 hne

theorem persistStage_recorded {tx' : UploadTransaction} {rev : Option (Option Digest)}
    {sp : Bool} {flt : Option PersistFault}
    (h : s.persistStage c now tx rev durableOffset state sp flt = (ok, s', tx'))
    (hl : state.isTerminal = false) (hfl : ∀ s₁ tx₁, Flushed s tx s₁ tx₁ → Held c s₁)
    (hs : Sole c s tx) (ha : Apart s) (hwr : Writing (s.data tx) (s.bytes c tx) tx)
    (hsy : (s.entrySynced || sp) = true) : Recorded c s tx ok s' tx' := by
  obtain ⟨rfl, hf⟩ | ⟨rfl, hst, hln, targetRevision, -, hpd⟩ :=
    persistStage_cases s c now tx rev durableOffset state sp flt h
  · have hh := hfl _ _ hf
    have hwr' := hf.writing hwr
    obtain ⟨⟨cur, qd, rfl⟩, f, rfl⟩ := hf.dataOnly
    exact ⟨hh, hs, ha, fun hok => hok.resolve_left (by simp), hwr', hf.queued,
      hf.unqueued, rfl, rfl⟩
  · have hf : Flushed s tx _ _ := .synced
    have hhl : ((s.syncedStage tx sp).data tx).Holds durableOffset (s.bytes c tx) := by
      show (((s.land tx tx.queued.length).1.updateData tx.file DurableFile.sync).data tx).Holds _ _
      rw [data_updateData]
      refine .of_sync ?_ (hwr.land _).content_isPrefixOf
      have : durableOffset ≤ (((s.land tx tx.queued.length).1.updateData tx.file
        DurableFile.sync).data tx).content.length := hln
      rwa [data_updateData] at this
    have hh : Held c s' := held_of_persisted hpd hl ((hfl _ _ hf).sync_entry sp) hst hsy hhl
    have hs' : Sole c s' tx := sole_of_persisted hpd hl hs
    rw [hpd.frame] at hh hs' ⊢
    exact ⟨hh, hs', ha, fun _ _ => hsy, hf.writing hwr, hf.queued, hf.unqueued, rfl, rfl⟩

theorem persistCheckpoint_recorded {tx' : UploadTransaction} {rev : Option (Option Digest)}
    {ini : Bool} {flt : Option PersistFault}
    (h : s.persistCheckpoint c now tx rev durableOffset ini flt = (ok, s', tx'))
    (hle : durableOffset ≤ tx.request.uploadLength)
    (hfl : ∀ s₁ tx₁, Flushed s tx s₁ tx₁ → Held c s₁) (hs : Sole c s tx) (ha : Apart s)
    (hwr : Writing (s.data tx) (s.bytes c tx) tx) (hsy : (s.entrySynced || ini) = true) :
    Recorded c s tx ok s' tx' := by
  rw [System.persistCheckpoint, if_pos hle] at h
  exact persistStage_recorded h rfl hfl hs ha hwr hsy

/-! ## Working on an attached stage -/

/-- A request that has the stage of its session open and writes to it. -/
structure Working (c : Config) (s : System) (tx : UploadTransaction) : Prop where
  rows : RowsSound c s.sessions
  attached : Attached c s.sessions s.stage tx
  quiet : Quiet s
  held : Held c s
  writing : Writing (s.data tx) (s.bytes c tx) tx
  published : ∀ p ∈ s.published, p.Exact

namespace Working

variable {c : Config} {s s₁ : System} {tx tx₁ : UploadTransaction}

theorem held_dataOnly (h : Working c s tx) (hd : DataOnly s tx s₁ tx₁)
    (hh : (s.data tx).Holds tx.initialOffset (s.bytes c tx) →
      (s₁.data tx₁).Holds tx.initialOffset (s.bytes c tx)) : Held c s₁ := by
  obtain ⟨hb, hz⟩ := h.held.backed h.attached h.writing.offset_le_length
  have hh₁ := hh hb
  have hq₁ := hd.quiet h.quiet
  have ha₁ := hd.attached h.attached
  obtain ⟨⟨cur, qd, rfl⟩, f, rfl⟩ := hd
  exact held_of_attached ha₁ h.rows hq₁.1 hh₁ hz

theorem held_flushed (h : Working c s tx) (hf : Flushed s tx s₁ tx₁) : Held c s₁ :=
  h.held_dataOnly hf.dataOnly (hf.holds h.writing.offset)

/-- The queue progresses. -/
theorem land (h : Working c s tx) (k : ℕ) : Working c (s.land tx k).1 (s.land tx k).2 where
  rows := h.rows
  attached := (land_dataOnly s tx k).attached h.attached
  quiet := h.quiet
  held := by
    refine h.held_dataOnly (land_dataOnly s tx k) fun hh => ?_
    show ((s.land tx k).1.data tx).Holds _ _
    rw [data_land]
    exact hh.writeAt 0 h.writing.offset _
  writing := h.writing.land k
  published := h.published

/-- More is queued. -/
theorem queue (h : Working c s tx) {queued : List UInt8}
    (hwt : (s.data tx).content ++ queued <+: s.bytes c tx)
    (hb : tx.cursor + queued.length ≤ tx.request.uploadLength) :
    Working c s { tx with queued := queued } :=
  ⟨h.rows, ⟨h.attached.stage, h.attached.row⟩, h.quiet, h.held,
    ⟨h.writing.position, hwt, h.writing.offset, hb⟩, h.published⟩

theorem flushed (h : Working c s tx) (hf : Flushed s tx s₁ tx₁) : Working c s₁ tx₁ where
  rows := by rw [hf.dataOnly.sessions]; exact h.rows
  attached := hf.dataOnly.attached h.attached
  quiet := hf.dataOnly.quiet h.quiet
  held := h.held_flushed hf
  writing := by rw [hf.dataOnly.bytes c]; exact hf.writing h.writing
  published := by rw [hf.dataOnly.published]; exact h.published

theorem finish (h : Working c s tx) (hq : tx.queued = []) : Content c (s.finish tx) :=
  .finish h.held h.published h.quiet hq

/-- A rollback leaves data to be written only behind a fresh upload. -/
theorem rollBack (h : Working c s tx) (hqd : tx.queued = [] ∨ tx.resume = false)
    (rej : Bool) : Content c (s.rollBack tx rej) :=
  .rollBack h.held h.published h.quiet.1 (h.attached.sole h.rows)
    (hqd.imp (fun hq => ⟨hq, h.quiet.2⟩) fun hf => ⟨h.attached, hf⟩) rej

theorem cutBack (h : Working c s tx) {flt : Option System.TruncateFault} {ok : Bool}
    (hc : s.cutBack tx flt = (ok, s₁, tx₁)) :
    Content c (s₁.finish tx₁) ∧ Content c (s₁.rollBack tx₁ false) := by
  have hd := cutBack_dataOnly hc
  have hq := cutBack_queued hc
  have hh : Held c s₁ := h.held_dataOnly hd (cutBack_holds hc h.writing.offset)
  have hqt := hd.quiet h.quiet
  have hp : ∀ p ∈ s₁.published, p.Exact := by rw [hd.published]; exact h.published
  have hr : RowsSound c s₁.sessions := by rw [hd.sessions]; exact h.rows
  have hs : Sole c s₁ tx₁ := (hd.attached h.attached).sole hr
  exact ⟨.finish hh hp hqt hq, .rollBack hh hp hqt.1 hs (Or.inl ⟨hq, hqt.2⟩) false⟩

theorem entrySynced (h : Working c s tx) : s.entrySynced = true :=
  h.quiet.1 (by simp [h.attached.stage])

theorem persistCheckpoint (h : Working c s tx) {s' : System} {tx' : UploadTransaction} {now : ℤ}
    {rev : Option (Option Digest)} {durableOffset : ℕ} {ini : Bool}
    {flt : Option PersistFault} {ok : Bool}
    (hp : s.persistCheckpoint c now tx rev durableOffset ini flt = (ok, s', tx'))
    (hle : durableOffset ≤ tx.request.uploadLength) : Recorded c s tx ok s' tx' :=
  persistCheckpoint_recorded hp hle (fun _ _ hf => h.held_flushed hf)
    (h.attached.sole h.rows) h.quiet.2 h.writing (by simp [h.entrySynced])

end Working

end DufsRam.Upload
