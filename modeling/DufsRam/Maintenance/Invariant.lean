import DufsRam.Maintenance.Recorded

/-!
# The invariant of uploads and maintenance

What maintenance has found out about a stage stays true while the staging directory stays in
place: the marker of maintenance and the registration of a request exclude each other, so that no
session of the stage changes under the claim.

Results:
* `Base.not_registered`: under the claim no request has registered the stage.
* `Kept.knows`: what the others have to leave alone.
* `Sound.upload` and the lemmas after it: every step of the others keeps the invariant.
-/

namespace DufsRam.Maintenance

open StateStore RootedFs Upload

/-! ## The invariant -/

/-- What holds of the stage, the set and the sessions, wherever maintenance is. -/
structure Base (stage : Stage) (s : Handshake) : Prop where
  exclusive : Exclusive s.active
  directory : s.upload.stage.isSome → s.directory.isSome
  registered : ∀ {key}, s.registration = .keyed key ∨ s.registration = .active key →
    key.name = stage.name ∧ (s.upload.stage.isSome → s.directory = some key.parent)
  active : ∀ {key}, s.registration = .active key → s.upload.stage.isSome → key ∈ s.active
  may : s.registration ≠ .none → ∀ task ∈ s.upload.task, mayTrack task = true
  must : ∀ task ∈ s.upload.task, mustTrack task = true → s.isRegistered = true
  elsewhere : ∀ key ∈ s.elsewhere, key.Plain ∧ s.entryKey stage ≠ some key
  claimed : ∀ key ∈ s.claimedElsewhere, s.entryKey stage ≠ some key
  recorded : Recorded stage.config s.upload

/-- The entry is the one of the stage, and maintenance has set its marker. -/
def Claimed (stage : Stage) (s : Handshake) (entry : RootedEntryKey) : Prop :=
  s.entryKey stage = some entry ∧ entry.maintenanceMarker ∈ s.active

/-- If the stage is the file of the expired session, that is the only session which records
    it. -/
def Matched (stage : Stage) (s : Handshake) (expired : ExpiredUploadSession) : Prop :=
  ∀ {file key row}, s.upload.stage = some file → expired.row.session.stageIdentity = some file →
    Live stage.config s.upload.sessions key row → row.session.stageIdentity = some file →
    key = expired.key ∧ row = expired.row

/-- No session of the stage is live. -/
def Unbound (stage : Stage) (s : Handshake) : Prop :=
  ∀ {key row}, ¬ Live stage.config s.upload.sessions key row

/-- What maintenance knows of the stage. -/
def Knows (stage : Stage) (s : Handshake) : MaintenancePhase → Prop
  | .listed expired | .matched expired => expired.row.session.stagePath = stage.config.stagePath
  | .keyed expired entry =>
    expired.row.session.stagePath = stage.config.stagePath ∧ s.entryKey stage = some entry
  | .claimed expired entry =>
    expired.row.session.stagePath = stage.config.stagePath ∧ Claimed stage s entry
  | .rechecked expired entry => Claimed stage s entry ∧ Matched stage s expired
  | .captured expired entry file =>
    Claimed stage s entry ∧ Matched stage s expired ∧
      expired.row.session.stageIdentity = some file
  | .scanKeyed entry => s.entryKey stage = some entry
  | .scanClaimed entry => Claimed stage s entry
  | .scanUnbound entry => Claimed stage s entry ∧ Unbound stage s
  | .idle | .removing _ _ | .visited | .releasing _ => True

/-- The invariant. -/
structure Sound (stage : Stage) (s : Handshake) : Prop where
  base : Base stage s
  knows : Knows stage s s.phase

section Invariant

variable {stage : Stage} {s s' : Handshake}

theorem not_keyed_none {key : RootedEntryKey} :
    ¬ (Registration.none = .keyed key ∨ Registration.none = .active key) := by
  simp

theorem isRegistered_iff : s.isRegistered = true ↔ ∃ key, s.registration = .active key := by
  unfold Handshake.isRegistered
  split
  · next key hk => simp [hk]
  · next ho =>
    simp only [Bool.false_eq_true, false_iff, not_exists]
    exact ho

/-- While maintenance holds its claim, no request has registered the stage. -/
theorem Base.not_registered (h : Base stage s) {ent : RootedEntryKey}
    (hcl : Claimed stage s ent) (hs : s.upload.stage.isSome) :
    s.isRegistered = false := by
  rw [Bool.eq_false_iff]
  intro hr
  obtain ⟨key, hk⟩ := isRegistered_iff.mp hr
  obtain ⟨hn, hpr⟩ := h.registered (.inr hk)
  have he : s.entryKey stage = some key := by
    rw [Handshake.entryKey, hpr hs, Option.map_some, ← hn]
  have hsm : ent = key := Option.some.inj (hcl.1.symm.trans he)
  have hp : key.Plain := by
    rw [RootedEntryKey.Plain, hn]
    exact stage.nul_not_mem
  rw [hsm] at hcl
  exact h.exclusive key hp ⟨h.active hk hs, hcl.2⟩

/-- What the others leave of what maintenance knows. -/
structure Kept (stage : Stage) (s s' : Handshake) : Prop where
  entry : ∀ {entry}, s.entryKey stage = some entry → s'.entryKey stage = some entry
  marker : ∀ {entry}, Claimed stage s entry → entry.maintenanceMarker ∈ s'.active
  live : ∀ {entry key row}, Claimed stage s entry → Live stage.config s'.upload.sessions key row →
    Live stage.config s.upload.sessions key row
  recorded : ∀ {file key row}, s'.upload.stage = some file →
    Live stage.config s'.upload.sessions key row → row.session.stageIdentity = some file →
    s.upload.stage = some file

theorem Kept.knows (h : Kept stage s s') {phase : MaintenancePhase}
    (hk : Knows stage s phase) : Knows stage s' phase := by
  have hcl : ∀ {entry}, Claimed stage s entry → Claimed stage s' entry :=
    fun hcl => ⟨h.entry hcl.1, h.marker hcl⟩
  have hm : ∀ {entry expired}, Claimed stage s entry → Matched stage s expired →
      Matched stage s' expired := by
    intro entry expired hcl hm file key row hs he hl hid
    exact hm (h.recorded hs hl hid) he (h.live hcl hl) hid
  cases phase with
  | keyed expired entry => exact ⟨hk.1, h.entry hk.2⟩
  | claimed expired entry => exact ⟨hk.1, hcl hk.2⟩
  | rechecked expired entry => exact ⟨hcl hk.1, hm hk.1 hk.2⟩
  | captured expired entry file =>
    exact ⟨hcl hk.1, hm hk.1 hk.2.1, hk.2.2⟩
  | scanKeyed entry => exact h.entry hk
  | scanClaimed entry => exact hcl hk
  | scanUnbound entry => exact ⟨hcl hk.1, fun hl => hk.2 (h.live hk.1 hl)⟩
  | listed | matched => exact hk
  | _ => trivial

theorem Sound.kept (h : Sound stage s) (hb : Base stage s') (hk : Kept stage s s')
    (hp : s'.phase = s.phase) : Sound stage s' := by
  refine ⟨hb, ?_⟩
  rw [hp]
  exact hk.knows h.knows

/-! ### Uploads -/

/-- The entry that maintenance has looked up and not dealt with yet. -/
def MaintenancePhase.pending : MaintenancePhase → Option RootedEntryKey
  | .keyed _ entry | .claimed _ entry | .rechecked _ entry | .captured _ entry _
  | .scanKeyed entry | .scanClaimed entry | .scanUnbound entry => some entry
  | _ => none

/-- The staging directory is not removed while maintenance deals with an entry of it. The inode of
    a new directory is in no key that is in use, and that of a new stage in no session of it. -/
def Steady (stage : Stage) (s : Handshake) : Event → Prop
  | .removeDirectory => s.phase.pending = none
  | .makeDirectory directory =>
    ∀ key, key ∈ s.elsewhere ∨ s.claimedElsewhere = some key → key.parent ≠ directory
  | .upload (.prepare (.create file)) =>
    ∀ key row, s.upload.sessions.get key = some row →
      row.session.stagePath = stage.config.stagePath → row.session.stageIdentity ≠ some file
  | _ => True

variable {u : System} {e : Upload.Event}

/-- An upload changes neither the set nor the directory. -/
theorem Base.upload (h : Base stage s) (hd : u.stage.isSome → s.directory.isSome)
    (hs : s.registration ≠ .none → u.stage.isSome → s.upload.stage.isSome)
    (hmy : s.registration ≠ .none → ∀ task ∈ u.task, mayTrack task = true)
    (hm : ∀ task ∈ u.task, mustTrack task = true → s.isRegistered = true)
    (hr : Recorded stage.config u) : Base stage { s with upload := u } where
  exclusive := h.exclusive
  directory := hd
  registered := by
    intro key hk
    have hsm : s.registration ≠ .none := by
      obtain hk | hk := hk <;> simp [show s.registration = _ from hk]
    exact ⟨(h.registered hk).1, fun hn => (h.registered hk).2 (hs hsm hn)⟩
  active := by
    intro key hk hn
    exact h.active hk (hs (by simp [show s.registration = _ from hk]) hn)
  may := hmy
  must := hm
  elsewhere := h.elsewhere
  claimed := h.claimed
  recorded := hr

theorem Kept.upload
    (hl : ∀ {entry key row}, Claimed stage s entry → Live stage.config u.sessions key row →
      Live stage.config s.upload.sessions key row)
    (hr : ∀ {file key row}, u.stage = some file → Live stage.config u.sessions key row →
      row.session.stageIdentity = some file → s.upload.stage = some file) :
    Kept stage s { s with upload := u } :=
  ⟨id, fun hcl => hcl.2, hl, hr⟩

/-- Others store and remove sessions of other stages, and terminal ones. -/
theorem Sound.outside (h : Sound stage s) (ht : u.task = s.upload.task)
    (hs : u.stage = s.upload.stage) (hr : ∀ key row, u.sessions.get key = some row →
      row.session.stagePath = stage.config.stagePath → s.upload.sessions.get key = some row) :
    Sound stage { s with upload := u } := by
  have hrc : Recorded stage.config u :=
    h.base.recorded.fewer (.inl hs) hr (.inl ht)
  refine h.kept (h.base.upload ?_ ?_ ?_ ?_ hrc) (.upload ?_ ?_) rfl
  · rw [hs]
    exact h.base.directory
  · intro _
    rw [hs]
    exact id
  · rw [ht]
    exact h.base.may
  · rw [ht]
    exact h.base.must
  · intro _ key row _ hl
    exact ⟨hr key row hl.1 hl.2.1, hl.2⟩
  · intro file key row hf _ _
    exact hs.symm.trans hf

/-- A request with an open stage. Under the claim of maintenance it is not registered, and saves
    nothing. -/
theorem Sound.transaction (h : Sound stage s) {tx : UploadTransaction} {ph : Phase}
    (ht : s.upload.task = some (.transaction tx ph))
    (hst : s.upload.taskStep stage.config (.transaction tx ph) e = some u)
    (hn : needsLease (.transaction tx ph) e = true → s.isRegistered = true) :
    Sound stage { s with upload := u } := by
  have hft := (transactionStep_stepped hst).toFootprint
  have hun : s.isRegistered = false →
      u.sessions = s.upload.sessions ∧ ∀ task ∈ u.task, mustTrack task = false := by
    intro hu
    refine untracked_taskStep hst ?_ ?_
    · rw [Bool.eq_false_iff]
      intro hm
      rw [h.base.must _ ht hm] at hu
      cases hu
    · rw [Bool.eq_false_iff]
      intro hls
      rw [hn hls] at hu
      cases hu
  have hf : ∀ {file}, u.stage = some file → s.upload.stage = some file := by
    intro file hf
    obtain hsa | hnn := hft.stage
    · rw [← hsa, hf]
    · rw [hnn] at hf
      cases hf
  have hsm : u.stage.isSome → s.upload.stage.isSome := by
    intro hsm
    obtain ⟨file, hs⟩ := Option.isSome_iff_exists.mp hsm
    rw [hf hs]
    rfl
  refine h.kept (h.base.upload (fun hnw => h.base.directory (hsm hnw)) (fun _ => hsm) ?_ ?_
    (h.base.recorded.footprint ht hft)) (.upload ?_ ?_) rfl
  · intro _ task' ht'
    obtain ⟨tx', ph', rfl, -⟩ := hft.task task' ht'
    rfl
  · intro task' ht' hm
    by_contra hu
    rw [(hun (Bool.eq_false_iff.mpr hu)).2 task' ht'] at hm
    cases hm
  · intro ent key row hcl hl
    obtain hold | ⟨-, hsv⟩ := hft.rows.get hl.1
    · exact ⟨hold, hl.2⟩
    obtain ⟨hs, -⟩ := hsv hl.2.2
    have hu := h.base.not_registered hcl (by rw [hs]; rfl)
    rw [← (hun hu).1]
    exact hl
  · intro file key row hs _ _
    exact hf hs

/-- A request without an open stage. A new stage is recorded by no session, and its request has not
    registered it. -/
theorem Sound.prepare (h : Sound stage s) {task : Task} {e : PrepareEvent}
    (hts : s.upload.task = some task) (hst : s.upload.prepareStep stage.config task e = some u)
    (hn : needsLease task (.prepare e) = true → s.isRegistered = true)
    (hcr : ∀ file, e = .create file → s.directory.isSome)
    (hnw : ∀ file, e = .create file → ∀ key row, s.upload.sessions.get key = some row →
      row.session.stagePath = stage.config.stagePath → row.session.stageIdentity ≠ some file) :
    Sound stage { s with upload := u } := by
  have hft := prepareStep_footprint hst
  have hr := h.base.recorded.prepareFootprint hft hnw
  have hmy : s.registration ≠ .none → ∀ task' ∈ u.task, mayTrack task' = true :=
    fun hsm task' ht' => (track_prepareStep hst ht').1 (h.base.may hsm task hts)
  have hm : ∀ task' ∈ u.task, mustTrack task' = true → s.isRegistered = true := by
    intro task' ht' hm'
    obtain hm | hls := (track_prepareStep hst ht').2 hm'
    · exact h.base.must task hts hm
    · exact hn hls
  have hsa : u.stage = s.upload.stage → u.sessions = s.upload.sessions →
      Sound stage { s with upload := u } := by
    intro hs hss
    refine h.kept (h.base.upload ?_ ?_ hmy hm hr) (.upload ?_ ?_) rfl
    · rw [hs]
      exact h.base.directory
    · rw [hs]
      exact fun _ => id
    · rw [hss]
      exact fun _ => id
    · rw [hs]
      exact fun hf _ _ => hf
  cases hft with
  | untouched hs hss | reopened _ _ _ _ _ _ hs hss =>
    exact hsa hs hss
  | created hc he hnn hs hss =>
    refine h.kept (h.base.upload ?_ ?_ hmy hm hr) (.upload ?_ ?_) rfl
    · exact fun _ => hcr _ he
    · intro hsm _
      have ht := h.base.may hsm task hts
      rw [hc] at ht
      cases ht
    · rw [hss]
      exact fun _ => id
    · intro file key row hf hl hid
      rw [hs] at hf
      rw [hss] at hl
      rw [← Option.some.inj hf] at hid
      exact absurd hid (hnw _ he key row hl.1 hl.2.1)

/-- A new process. -/
theorem Sound.forget (h : Base stage s) (ht : u.task = none)
    (hst : u.stage = s.upload.stage ∨ u.stage = none) (hr : Recorded stage.config u) :
    Sound stage (s.forget u) := by
  refine ⟨⟨.empty, ?_, fun hk => absurd hk not_keyed_none, nofun, ?_, ?_, nofun, nofun,
    hr⟩, trivial⟩
  · intro hs
    obtain hsm | hn := hst
    · exact h.directory (by rw [← hsm]; exact hs)
    · rw [show (s.forget u).upload.stage = u.stage from rfl, hn] at hs
      cases hs
  · intro hs
    exact absurd rfl hs
  · intro task ht'
    rw [show (s.forget u).upload.task = u.task from rfl, ht] at ht'
    cases ht'

/-- The running request takes a step. -/
theorem Sound.task (h : Sound stage s) {task : Task} (ht : s.upload.task = some task)
    (hs : s.upload.taskStep stage.config task e = some u)
    (hn : needsLease task e = true → s.isRegistered = true)
    (hcr : ∀ file, e = .prepare (.create file) → s.directory.isSome)
    (hst : Steady stage s (.upload e)) : Sound stage { s with upload := u } := by
  by_cases ho : task.isOpen = true
  · cases task with
    | transaction tx phase => exact h.transaction ht hs hn
    | _ => cases ho
  have hc : ∀ tx phase, task ≠ .transaction tx phase := by
    rintro tx phase rfl
    exact ho rfl
  unfold System.taskStep at hs
  split at hs
  · split at hs
    · exact absurd rfl (hc _ _)
    refine h.prepare ht hs hn ?_ ?_
    · rintro file rfl
      exact hcr file rfl
    · rintro file rfl
      exact hst
  · split at hs
    · exact absurd rfl (hc _ _)
    · cases hs
  · split at hs
    · exact absurd rfl (hc _ _)
    · cases hs
  · split at hs
    · exact absurd rfl (hc _ _)
    · cases hs
  · cases hs

theorem isRegistered_of_admits {task : Task} (h : s.admits e = true)
    (ht : s.upload.task = some task) (hn : needsLease task e = true) :
    s.isRegistered = true := by
  have hr : (s.upload.task.all fun task => !needsLease task e || s.isRegistered) = true →
      s.isRegistered = true := by
    intro ha
    rw [ht] at ha
    simpa [hn] using ha
  cases e with
  | request => simp [needsLease] at hn
  | prepare e =>
    cases e with
    | create => simp [needsLease] at hn
    | _ => exact hr h
  | _ => exact hr h

theorem Sound.upload (h : Sound stage s) (hs : s.uploadStep stage e = some s')
    (hsd : Steady stage s (.upload e)) :
    Sound stage s' := by
  unfold Handshake.uploadStep at hs
  split_ifs at hs with ha
  obtain ⟨u, hu, rfl⟩ := Option.map_eq_some_iff.mp hs
  have hr : (s.upload.task.bind fun task => s.upload.taskStep stage.config task e) = some u →
      Sound stage { s with upload := u } := by
    intro hrn
    obtain ⟨task, ht, hts⟩ := Option.bind_eq_some_iff.mp hrn
    refine h.task ht hts (isRegistered_of_admits ha ht) ?_ hsd
    rintro file rfl
    exact ha
  cases e with
  | request r =>
    simp only [System.step] at hu
    split_ifs at hu with hi
    cases hu
    have hn : s.registration = .none := of_decide_eq_true ha
    refine h.kept (h.base.upload h.base.directory (fun _ => id) ?_ ?_ ?_)
      (.upload (fun _ => id) fun hf _ _ => hf) rfl
    · exact fun hsm => absurd hn hsm
    · intro task ht hm
      rw [← Option.some.inj ht] at hm
      cases hm
    · refine h.base.recorded.fewer (.inl rfl) (fun _ _ hg _ => hg) (.inr ?_)
      intro task ht
      rw [← Option.some.inj ht]
      rfl
  | orphan index bytes =>
    obtain ⟨orphan, -, rfl⟩ := Option.map_eq_some_iff.mp hu
    exact h.outside rfl rfl fun _ _ hg _ => hg
  | orphanFails | target =>
    cases hu
    exact h.outside rfl rfl fun _ _ hg _ => hg
  | storeElsewhere key row =>
    simp only [System.step] at hu
    split_ifs at hu with he
    cases hu
    refine h.outside rfl rfl ?_
    intro key' row' hg hp
    obtain ⟨-, rfl⟩ | ⟨-, hold⟩ := Table.get_put_cases hg
    · exact absurd hp he.1
    · exact hold
  | removeElsewhere key =>
    simp only [System.step] at hu
    split_ifs at hu
    cases hu
    exact h.outside rfl rfl fun _ _ hg _ => (Table.get_of_get_erase hg).2
  | crash keep tail =>
    simp only [System.step] at hu
    split_ifs at hu
    cases hu
    have hst : (s.upload.crash keep tail).stage = s.upload.stage ∨
        (s.upload.crash keep tail).stage = none := by
      simp only [System.crash]
      split_ifs
      · exact .inl rfl
      · exact .inr rfl
    refine .forget h.base rfl hst (h.base.recorded.fewer hst (fun _ _ hg _ => hg) (.inr ?_))
    intro task ht
    cases ht
  | restart now =>
    simp only [System.step] at hu
    split_ifs at hu with hi
    unfold System.restart at hu
    split at hu
    · cases hu
    next sessions hrc =>
    simp only at hu
    split_ifs at hu
    cases hu
    exact .forget h.base hi.2 (.inl rfl) (h.base.recorded.recovered hrc rfl hi.2)
  | prepare | transfer | commit | rollback =>
    exact hr (by rw [← hu]; unfold System.step; cases s.upload.task <;> rfl)

/-! ### The set and the directory -/

/-- The steps that leave the uploads alone. -/
theorem Kept.environment (hu : s'.upload = s.upload)
    (he : ∀ {entry}, s.entryKey stage = some entry → s'.entryKey stage = some entry)
    (hm : ∀ {entry}, Claimed stage s entry → entry.maintenanceMarker ∈ s'.active) :
    Kept stage s s' := by
  refine ⟨he, hm, ?_, ?_⟩
  · rw [hu]
    exact fun _ => id
  · rw [hu]
    exact fun hf _ _ => hf

theorem Sound.key (h : Sound stage s) (hs : s.step stage .key = some s') : Sound stage s' := by
  simp only [Handshake.step] at hs
  split_ifs at hs with hr
  obtain ⟨key, hk, rfl⟩ := Option.map_eq_some_iff.mp hs
  obtain ⟨hc, hn⟩ := hr
  have hu : s.isRegistered = false := by
    rw [Handshake.isRegistered, hn]
  obtain ⟨dir, hd, rfl⟩ := Option.map_eq_some_iff.mp hk
  refine h.kept { h.base with registered := ?_, active := nofun, may := ?_, must := ?_ }
    (.environment rfl id fun hcl => hcl.2) rfl
  · intro key hk
    obtain hk | hk := hk
    · cases hk
      exact ⟨rfl, fun _ => hd⟩
    · cases hk
  · intro _ task ht
    rw [show s.upload.task = some task from ht] at hc
    cases task with
    | inspecting r rec => exact hc
    | transaction tx ph => rfl
    | _ => cases hc
  · intro task ht hm
    rw [h.base.must task ht hm] at hu
    cases hu

theorem Sound.track (h : Sound stage s) (hs : s.trackStep s.registration = some s') :
    Sound stage s' := by
  unfold Handshake.trackStep at hs
  split at hs
  · next key hky =>
    obtain ⟨hn, hpr⟩ := h.base.registered (.inl hky)
    have hu : s.isRegistered = false := by
      rw [Handshake.isRegistered, hky]
    split_ifs at hs with hm
    · cases hs
      refine h.kept { h.base with
          registered := fun hk => absurd hk not_keyed_none
          active := fun hk => by cases hk
          may := fun hsm => absurd rfl hsm
          must := ?_ }
        (.environment rfl id fun hcl => hcl.2) rfl
      · intro task ht hms
        rw [h.base.must task ht hms] at hu
        cases hu
    · cases hs
      have hp : key.Plain := by
        rw [RootedEntryKey.Plain, hn]
        exact stage.nul_not_mem
      refine h.kept { h.base with
          exclusive := h.base.exclusive.insert_key hp hm
          registered := ?_
          active := ?_
          may := ?_
          must := fun _ _ _ => rfl }
        (.environment rfl id fun hcl => Finset.mem_insert_of_mem hcl.2) rfl
      · intro key' hk
        obtain hk | hk := hk
        · cases hk
        · cases hk
          exact ⟨hn, hpr⟩
      · intro key' hk _
        cases hk
        exact Finset.mem_insert_self _ _
      · exact fun _ => h.base.may (by simp [hky])
  · cases hs

theorem Sound.release (h : Sound stage s) (hi : s.upload.task = none) :
    Sound stage (s.release s.registration) := by
  have hmy : ∀ task ∈ s.upload.task, mayTrack task = true := by
    intro task ht
    rw [hi] at ht
    cases ht
  have hm : ∀ {registered : Bool}, ∀ task ∈ s.upload.task, mustTrack task = true →
      registered = true := by
    intro _ task ht
    rw [hi] at ht
    cases ht
  unfold Handshake.release
  split
  · exact h
  · exact h.kept { h.base with
        registered := fun hk => absurd hk not_keyed_none
        active := fun hk => by cases hk
        may := fun _ => hmy
        must := hm }
      (.environment rfl id fun hcl => hcl.2) rfl
  · next key hk =>
    have hp : key.Plain := by
      rw [RootedEntryKey.Plain, (h.base.registered (.inr hk)).1]
      exact stage.nul_not_mem
    refine h.kept { h.base with
        exclusive := h.base.exclusive.erase key
        registered := fun hk => absurd hk not_keyed_none
        active := fun hk => by cases hk
        may := fun _ => hmy
        must := hm }
      (.environment rfl id fun hcl => ?_) rfl
    exact Finset.mem_erase_of_ne_of_mem (Plain.ne_maintenanceMarker hp).symm hcl.2

theorem Sound.makeDirectory (h : Sound stage s) {directory : FileIdentity}
    (hs : s.step stage (.makeDirectory directory) = some s')
    (hst : Steady stage s (.makeDirectory directory)) : Sound stage s' := by
  simp only [Handshake.step] at hs
  split_ifs at hs with hn
  cases hs
  -- Without a directory there is no stage.
  have hsg : ∀ {P : Prop}, s.upload.stage.isSome → P := by
    intro P hsm
    have hd := h.base.directory hsm
    rw [hn] at hd
    cases hd
  have hf : ∀ key, key ∈ s.elsewhere ∨ s.claimedElsewhere = some key →
      some (RootedEntryKey.mk directory stage.name) ≠ some key := by
    intro key hk hsa
    exact hst key hk (by rw [← Option.some.inj hsa])
  refine h.kept { h.base with
      directory := fun _ => rfl
      registered := fun hk => ⟨(h.base.registered hk).1, fun hsm => hsg hsm⟩
      elsewhere := fun key hk => ⟨(h.base.elsewhere key hk).1, hf key (.inl hk)⟩
      claimed := fun key hk => hf key (.inr hk) }
    (.environment rfl ?_ fun hcl => hcl.2) rfl
  intro ent he
  rw [Handshake.entryKey, hn] at he
  cases he

theorem Sound.removeDirectory (h : Sound stage s) (hsp : s.step stage .removeDirectory = some s')
    (hst : Steady stage s .removeDirectory) : Sound stage s' := by
  simp only [Handshake.step] at hsp
  split_ifs at hsp with hn
  cases hsp
  have hsg : ∀ {P : Prop}, s.upload.stage.isSome → P := by
    intro P hs
    rw [hn] at hs
    cases hs
  refine ⟨{ h.base with
    directory := fun hs => hsg hs
    registered := fun hk => ⟨(h.base.registered hk).1, fun hs => hsg hs⟩
    elsewhere := fun key hk => ⟨(h.base.elsewhere key hk).1, nofun⟩
    claimed := fun key hk => nofun }, ?_⟩
  -- Maintenance knows nothing that depends on the directory.
  have hkn := h.knows
  simp only [Steady] at hst
  generalize s.phase = phase at hkn hst
  cases phase with
  | listed | matched => exact hkn
  | idle | removing | visited | releasing => trivial
  | _ => cases hst

theorem isElsewhere_eq_true {key : RootedEntryKey} :
    s.isElsewhere stage key = true ↔ key.Plain ∧ s.entryKey stage ≠ some key := by
  simp [Handshake.isElsewhere, RootedEntryKey.Plain]

theorem Sound.trackElsewhere (h : Sound stage s) {key : RootedEntryKey}
    (hs : s.step stage (.trackElsewhere key) = some s') : Sound stage s' := by
  simp only [Handshake.step] at hs
  split_ifs at hs with ho
  cases hs
  obtain ⟨he, hm⟩ := ho
  have he := isElsewhere_eq_true.mp he
  refine h.kept { h.base with
      exclusive := h.base.exclusive.insert_key he.1 hm
      active := fun hk hsm => Finset.mem_insert_of_mem (h.base.active hk hsm)
      elsewhere := ?_ }
    (.environment rfl id fun hcl => Finset.mem_insert_of_mem hcl.2) rfl
  intro key' hk'
  obtain rfl | hold := List.mem_cons.mp hk'
  · exact he
  · exact h.base.elsewhere key' hold

theorem Sound.releaseElsewhere (h : Sound stage s) {key : RootedEntryKey}
    (hs : s.step stage (.releaseElsewhere key) = some s') : Sound stage s' := by
  simp only [Handshake.step] at hs
  split_ifs at hs with hm
  cases hs
  obtain ⟨hp, ho⟩ := h.base.elsewhere key hm
  refine h.kept { h.base with
      exclusive := h.base.exclusive.erase key
      active := ?_
      elsewhere := fun key' hk' => h.base.elsewhere key' (List.mem_of_mem_erase hk') }
    (.environment rfl id fun hcl => ?_) rfl
  · intro key' hk' hsm
    refine Finset.mem_erase_of_ne_of_mem ?_ (h.base.active hk' hsm)
    rintro rfl
    obtain ⟨hn, hpr⟩ := h.base.registered (.inr hk')
    exact ho (by rw [Handshake.entryKey, hpr hsm, Option.map_some, ← hn])
  · exact Finset.mem_erase_of_ne_of_mem (Plain.ne_maintenanceMarker hp).symm hcl.2

theorem Sound.claimElsewhere (h : Sound stage s) {key : RootedEntryKey}
    (hs : s.step stage (.claimElsewhere key) = some s') : Sound stage s' := by
  simp only [Handshake.step] at hs
  split_ifs at hs with ho
  obtain ⟨claimed, hc, rfl⟩ := Option.map_eq_some_iff.mp hs
  obtain ⟨hf, rfl⟩ := tryClaim_eq_some hc
  refine h.kept { h.base with
      exclusive := h.base.exclusive.insert_marker hf
      active := fun hk hsm => Finset.mem_insert_of_mem (h.base.active hk hsm)
      claimed := ?_ }
    (.environment rfl id fun hcl => Finset.mem_insert_of_mem hcl.2) rfl
  intro key' hk'
  rw [← Option.some.inj hk']
  exact (isElsewhere_eq_true.mp ho.1).2

theorem Sound.dropElsewhere (h : Sound stage s)
    (hs : s.step stage .dropElsewhere = some s') : Sound stage s' := by
  obtain ⟨key, hk, rfl⟩ := Option.map_eq_some_iff.mp hs
  refine h.kept { h.base with
      exclusive := h.base.exclusive.erase _
      active := ?_
      claimed := nofun }
    (.environment rfl id fun hcl => ?_) rfl
  · intro key' hk' hsm
    refine Finset.mem_erase_of_ne_of_mem (Plain.ne_maintenanceMarker ?_) (h.base.active hk' hsm)
    rw [RootedEntryKey.Plain, (h.base.registered (.inr hk')).1]
    exact stage.nul_not_mem
  · refine Finset.mem_erase_of_ne_of_mem ?_ hcl.2
    intro hsa
    exact h.base.claimed key hk (by rw [hcl.1, maintenanceMarker_inj hsa])

end Invariant

end DufsRam.Maintenance
