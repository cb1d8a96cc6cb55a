import DufsRam.Maintenance.Handshake
import DufsRam.StateStore.UploadHistory
import DufsRam.Upload.Footprint
import DufsRam.Upload.Linked

/-!
# Registrations and recorded stages

What maintenance and the uploads of a stage rely on, each on its own side: an entry of the set
excludes its marker; a request saves a live session only after it has registered the stage; and a
file that the staging path names is recorded by the sessions of one key.

Results:
* `Exclusive.insert_key`, `Exclusive.insert_marker`: the two ways into the set.
* `track_prepareStep`, `untracked_taskStep`: what a request does before it is registered.
* `Recorded.footprint`, `Recorded.prepareFootprint`: which sessions record the stage.
-/

namespace DufsRam.Maintenance

open StateStore RootedFs Upload

/-! ## The active set -/

/-- The name of the entry is a component of a path. -/
def RootedEntryKey.Plain (key : RootedEntryKey) : Prop := 0 ∉ key.name

theorem maintenanceMarker_inj {key key' : RootedEntryKey}
    (h : key.maintenanceMarker = key'.maintenanceMarker) : key = key' := by
  obtain ⟨p, name⟩ := key
  simp only [RootedEntryKey.maintenanceMarker, RootedEntryKey.mk.injEq] at h
  rw [h.1, List.append_cancel_right h.2]

theorem maintenanceMarker_not_plain (key : RootedEntryKey) : ¬ key.maintenanceMarker.Plain := by
  simp [RootedEntryKey.Plain, RootedEntryKey.maintenanceMarker]

theorem Plain.ne_maintenanceMarker {key key' : RootedEntryKey} (h : key.Plain) :
    key ≠ key'.maintenanceMarker := by
  rintro rfl
  exact maintenanceMarker_not_plain key' h

/-- No entry is in the set together with its marker. -/
def Exclusive (active : Finset RootedEntryKey) : Prop :=
  ∀ key : RootedEntryKey, key.Plain → ¬ (key ∈ active ∧ key.maintenanceMarker ∈ active)

namespace Exclusive

variable {active : Finset RootedEntryKey} {key : RootedEntryKey}

theorem empty : Exclusive ∅ := fun _ _ h => absurd h.1 (Finset.notMem_empty _)

theorem erase (h : Exclusive active) (key : RootedEntryKey) : Exclusive (active.erase key) :=
  fun key' hp hb =>
    h key' hp ⟨Finset.mem_of_mem_erase hb.1, Finset.mem_of_mem_erase hb.2⟩

/-- An upload registers an entry whose marker is not set. -/
theorem insert_key (h : Exclusive active) (hk : key.Plain)
    (hf : key.maintenanceMarker ∉ active) : Exclusive (insert key active) := by
  rintro key' hp ⟨hm, hmr⟩
  have hold : key'.maintenanceMarker ∈ active := by
    obtain hs | hold := Finset.mem_insert.mp hmr
    · exact absurd hs.symm (Plain.ne_maintenanceMarker hk)
    · exact hold
  obtain hs | hm := Finset.mem_insert.mp hm
  · rw [hs] at hold
    exact hf hold
  · exact h key' hp ⟨hm, hold⟩

/-- Maintenance sets the marker of an entry that is not registered. -/
theorem insert_marker (h : Exclusive active) (hf : key ∉ active) :
    Exclusive (insert key.maintenanceMarker active) := by
  rintro key' hp ⟨hmm, hm⟩
  obtain hs | hmm := Finset.mem_insert.mp hmm
  · exact Plain.ne_maintenanceMarker hp hs
  obtain hs | hm := Finset.mem_insert.mp hm
  · rw [maintenanceMarker_inj hs] at hmm
    exact hf hmm
  · exact h key' hp ⟨hmm, hm⟩

end Exclusive

theorem tryClaim_eq_some {s s' : Handshake} {e : RootedEntryKey}
    (h : s.tryClaim e = some s') : e ∉ s.active ∧
      s' = { s with active := insert e.maintenanceMarker s.active } := by
  unfold Handshake.tryClaim at h
  split_ifs at h with hf
  rw [not_or] at hf
  exact ⟨hf.1, (Option.some.inj h).symm⟩

/-! ## Requests and the registration -/

/-- A request that may have registered the stage. -/
def mayTrack : Task → Bool
  | .looking _ | .creating _ => false
  | .inspecting r _ | .preserving r _ => r.mode.isResume
  | .reopening _ | .transaction _ _ => true

/-- A request that has registered the stage. -/
def mustTrack : Task → Bool
  | .looking _ | .creating _ | .inspecting _ _ => false
  | .preserving r _ => r.mode.isResume
  | .reopening _ => true
  | .transaction _ .initialCheckpoint | .transaction _ (.discarding false) => false
  | .transaction _ _ => true

theorem track_afterChecks {r : UploadRequest} {rec : Option UploadCheckpoint}
    {fid : ReplacementTargetIdentity} {md : Option PreservedFileMetadata} {task : Task}
    (h : Task.afterChecks r rec fid md = some task) :
    mayTrack task = r.mode.isResume ∧ mustTrack task = r.mode.isResume := by
  unfold Task.afterChecks at h
  split_ifs at h
  split at h
  · next hm =>
    rw [← Option.some.inj h, hm]
    exact ⟨rfl, rfl⟩
  · next hm =>
    rw [← Option.some.inj h, hm]
    exact ⟨rfl, rfl⟩

/-- Before it has an open stage, a request goes on registered if it was, and needs to be only if
    it was or if the step asks for it. -/
theorem track_prepareStep {c : Config} {u u' : System} {task task' : Task} {e : PrepareEvent}
    (h : u.prepareStep c task e = some u') (ht' : u'.task = some task') :
    (mayTrack task = true → mayTrack task' = true) ∧
      (mustTrack task' = true → mustTrack task = true ∨ needsLease task (.prepare e) = true) := by
  unfold System.prepareStep at h
  split at h
  · cases h
  · rw [← Option.some.inj h] at ht'
    cases ht'
  · rw [← Option.some.inj h] at ht'
    obtain ⟨rec, -, rfl⟩ := Option.map_eq_some_iff.mp ht'
    exact ⟨nofun, nofun⟩
  · split at h
    · rw [← Option.some.inj h] at ht'
      split_ifs at ht'
      obtain ⟨hmy, hm⟩ := track_afterChecks ht'
      exact ⟨fun hrs => hmy.trans hrs, fun hn => .inr (hm.symm.trans hn)⟩
    · rw [← Option.some.inj h] at ht'
      split_ifs at ht'
      rw [← Option.some.inj ht']
      exact ⟨fun hrs => hrs, fun hn => .inr hn⟩
  · split at h
    · rw [← Option.some.inj h] at ht'
      cases ht'
    rw [← Option.some.inj h] at ht'
    split_ifs at ht'
    obtain ⟨hmy, hm⟩ := track_afterChecks ht'
    exact ⟨fun hrs => hmy.trans hrs, fun hn => .inl (hm.symm.trans hn)⟩
  · unfold System.createStage at h
    split_ifs at h
    · rw [← Option.some.inj h] at ht'
      cases ht'
    · rw [← Option.some.inj h] at ht'
      rw [← Option.some.inj ht']
      exact ⟨nofun, nofun⟩
  · split at h
    · cases h
    split at h
    · rw [← Option.some.inj h] at ht'
      cases ht'
    · rw [← Option.some.inj h] at ht'
      rw [← Option.some.inj ht']
      exact ⟨fun _ => rfl, fun _ => .inl rfl⟩
  · cases h

/-- A request with an open stage that is not registered yet, or that discards the stage because
    it could not be, saves no session, and does not go on to do so. -/
theorem untracked_taskStep {c : Config} {u u' : System} {tx : UploadTransaction} {ph : Phase}
    {e : Upload.Event} (h : u.taskStep c (.transaction tx ph) e = some u')
    (hm : mustTrack (.transaction tx ph) = false)
    (hn : needsLease (.transaction tx ph) e = false) :
    u'.sessions = u.sessions ∧ ∀ task' ∈ u'.task, mustTrack task' = false := by
  have hp : ph = .initialCheckpoint ∨ ph = .discarding false := by
    cases ph with
    | initialCheckpoint => exact .inl rfl
    | discarding rst =>
      cases rst with
      | false => exact .inr rfl
      | true => cases hm
    | _ => cases hm
  unfold System.taskStep at h
  split at h
  · next e =>
    obtain rfl | rfl := hp
    · cases e with
      | abandon =>
        rw [← Option.some.inj h]
        refine ⟨rfl, ?_⟩
        intro task' ht'
        rw [← Option.some.inj ht']
        rfl
      | deadline | persist => cases hn
      | _ => cases h
    · cases e <;> cases h
  · next e => obtain rfl | rfl := hp <;> cases e <;> cases h
  · next e => obtain rfl | rfl := hp <;> cases e <;> cases h
  · next f =>
    obtain rfl | rfl := hp
    · cases h
    rw [← Option.some.inj h]
    refine ⟨?_, ?_⟩
    · exact removeFileIfIdentity_sessions u _ _ _
    · intro task' ht'
      cases ht'
  · cases h

/-! ## The sessions of the stage -/

/-- A session of the stage that is not terminal. -/
def Live (c : Config) (sessions : UploadSessions Path) (key : UploadSessionKey)
    (row : UploadRow Path) : Prop :=
  sessions.get key = some row ∧ row.session.stagePath = c.stagePath ∧
    row.session.state.isTerminal = false

/-- Which sessions record the file that the staging path names, or the file that is open. -/
structure Recorded (c : Config) (u : System) : Prop where
  current : ∀ {tx phase file key row}, u.task = some (.transaction tx phase) →
    u.stage = some file → Live c u.sessions key row → row.session.stageIdentity = some file →
    key = c.key tx.request.owner
  other : ∀ {file key row key' row'}, u.stage = some file → Live c u.sessions key row →
    row.session.stageIdentity = some file → u.sessions.get key' = some row' →
    row'.session.stagePath = c.stagePath → row'.session.stageIdentity = some file → key' = key
  opened : ∀ {tx phase key row}, u.task = some (.transaction tx phase) →
    u.sessions.get key = some row → row.session.stagePath = c.stagePath →
    row.session.stageIdentity = some tx.file → key = c.key tx.request.owner

namespace Recorded

variable {c : Config} {u u' : System}

/-- Nothing is recorded by fewer rows that was not recorded before. -/
theorem fewer (h : Recorded c u) (hst : u'.stage = u.stage ∨ u'.stage = none)
    (hrw : ∀ key row, u'.sessions.get key = some row → row.session.stagePath = c.stagePath →
      u.sessions.get key = some row)
    (ht : u'.task = u.task ∨ ∀ task ∈ u'.task, task.isOpen = false) : Recorded c u' := by
  have hf : ∀ {file}, u'.stage = some file → u.stage = some file := by
    intro file hf
    obtain hs | hn := hst
    · rw [← hs, hf]
    · rw [hn] at hf
      cases hf
  have hl : ∀ {key row}, Live c u'.sessions key row → Live c u.sessions key row :=
    fun hr => ⟨hrw _ _ hr.1 hr.2.1, hr.2⟩
  have ho : ∀ {tx ph}, u'.task = some (.transaction tx ph) →
      u.task = some (.transaction tx ph) := by
    intro tx ph ho
    obtain hs | hc := ht
    · rw [← hs, ho]
    · cases hc _ ho
  refine ⟨?_, ?_, ?_⟩
  · intro tx ph file key row htx hs' hr hid
    exact h.current (ho htx) (hf hs') (hl hr) hid
  · intro file key row key' row' hs' hr hid hg hp hid'
    exact h.other (hf hs') (hl hr) hid (hrw _ _ hg hp) hp hid'
  · intro tx ph key row htx hg hp hid
    exact h.opened (ho htx) (hrw _ _ hg hp) hp hid

/-- A request with an open stage. -/
theorem footprint (h : Recorded c u) {tx : UploadTransaction} {ph : Phase}
    (ht : u.task = some (.transaction tx ph)) (hst : Footprint c u tx u') :
    Recorded c u' := by
  have hf : ∀ {file}, u'.stage = some file → u.stage = some file := by
    intro file hf
    obtain hsm | hnn := hst.stage
    · rw [← hsm, hf]
    · rw [hnn] at hf
      cases hf
  -- A session that records the stage is the one of the request, also after the step.
  have how : ∀ {file key row}, u'.stage = some file → Live c u'.sessions key row →
      row.session.stageIdentity = some file → key = c.key tx.request.owner := by
    intro file key row hs hr hid
    obtain hold | ⟨hk, -⟩ := hst.rows.get hr.1
    · exact h.current ht (hf hs) ⟨hold, hr.2⟩ hid
    · exact hk
  have hn : ∀ {tx' ph'}, u'.task = some (.transaction tx' ph') →
      tx'.file = tx.file ∧ tx'.request = tx.request := by
    intro tx' ph' ht'
    obtain ⟨tx₁, ph₁, hsm, hf, hrq⟩ := hst.task _ ht'
    cases hsm
    exact ⟨hf, hrq⟩
  refine ⟨?_, ?_, ?_⟩
  · intro tx' ph' file key row ht' hs hr hid
    rw [(hn ht').2]
    exact how hs hr hid
  · intro file key row key' row' hs hr hid hg hp hid'
    rw [how hs hr hid]
    obtain ho' | ⟨hk', -⟩ := hst.rows.get hg
    · obtain hold | ⟨-, hsv⟩ := hst.rows.get hr.1
      · rw [← h.current ht (hf hs) ⟨hold, hr.2⟩ hid]
        exact h.other (hf hs) ⟨hold, hr.2⟩ hid ho' hp hid'
      obtain ⟨-, ho, -⟩ := hsv hr.2.2
      rw [hid] at ho
      rw [ho] at hid'
      exact h.opened ht ho' hp hid'
    · exact hk'
  · intro tx' ph' key row ht' hg hp hid
    rw [(hn ht').1] at hid
    rw [(hn ht').2]
    obtain hold | ⟨hk, -⟩ := hst.rows.get hg
    · exact h.opened ht hold hp hid
    · exact hk

/-- A request without an open stage; a new stage is not recorded yet. -/
theorem prepareFootprint (h : Recorded c u) {task : Task} {e : PrepareEvent}
    (hst : PrepareFootprint c u task e u')
    (hn : ∀ file, e = .create file → ∀ key row, u.sessions.get key = some row →
      row.session.stagePath = c.stagePath → row.session.stageIdentity ≠ some file) :
    Recorded c u' := by
  cases hst with
  | untouched hs hss hc =>
    refine h.fewer (.inl hs) ?_ (.inr hc)
    rw [hss]
    exact fun _ _ hg _ => hg
  | created _ he _ hs hss ht =>
    have hn := hn _ he
    rw [← hss] at hn
    refine ⟨?_, ?_, ?_⟩
    · intro tx ph file key row _ hs' hr hid
      rw [hs] at hs'
      cases hs'
      exact absurd hid (hn key row hr.1 hr.2.1)
    · intro file key row key' row' hs' hr hid
      rw [hs] at hs'
      cases hs'
      exact absurd hid (hn key row hr.1 hr.2.1)
    · intro tx ph key row ht' hg hp hid
      rw [ht] at ht'
      cases ht'
      exact absurd hid (hn key row hg hp)
  | reopened hrp hg hp hl hid hs hsm hss ht =>
    rename_i p file row
    -- The row of the request records the stage, so no other row does.
    have ho : ∀ {key row}, u.sessions.get key = some row →
        row.session.stagePath = c.stagePath → row.session.stageIdentity = u.stage →
        key = c.key p.request.owner := by
      intro key row hg' hp' hid'
      rw [hs] at hid'
      exact h.other hs ⟨hg, hp, hl⟩ hid hg' hp' hid'
    refine ⟨?_, ?_, ?_⟩
    · intro tx ph file key row ht' hs' hr hid'
      rw [ht] at ht'
      cases ht'
      rw [hss] at hr
      rw [hsm] at hs'
      exact ho hr.1 hr.2.1 (hid'.trans hs'.symm)
    · rw [hsm, hss]
      exact h.other
    · intro tx ph key row ht' hg' hp' hid'
      rw [ht] at ht'
      cases ht'
      rw [hss] at hg'
      exact ho hg' hp' (hid'.trans hs.symm)

/-- A recovery ends sessions, and changes neither their stages nor the files they record. -/
theorem recovered (h : Recorded c u) {lim : UploadLimits} {now : ℤ}
    (hrc : recoverUploadSessions lim now u.sessions = .ok u'.sessions)
    (hs : u'.stage = u.stage) (ht : u'.task = none) : Recorded c u' := by
  have hb : ∀ {key row}, u'.sessions.get key = some row → ∃ old,
      u.sessions.get key = some old ∧ old.session.stagePath = row.session.stagePath ∧
      old.session.stageIdentity = row.session.stageIdentity ∧
      (row.session.state.isTerminal = false → old.session.state.isTerminal = false) := by
    intro key row hg
    obtain ⟨exp, -, hr⟩ := recoverUploadSessions_get hrc
    rw [hr] at hg
    obtain ⟨old, hold, rfl⟩ := Option.map_eq_some_iff.mp hg
    refine ⟨old, hold, ?_⟩
    unfold UploadRow.recover
    split_ifs
    · exact ⟨rfl, rfl, nofun⟩
    · exact ⟨rfl, rfl, id⟩
  refine ⟨?_, ?_, ?_⟩
  · intro tx ph _ _ _ ht'
    rw [ht] at ht'
    cases ht'
  · intro file key row key' row' hs' hr hid hg hp hid'
    obtain ⟨old, hold, hop, hoi, hl⟩ := hb hr.1
    obtain ⟨old', ho', hop', hoi', -⟩ := hb hg
    rw [hs] at hs'
    exact h.other hs' ⟨hold, hop.trans hr.2.1, hl hr.2.2⟩
      (hoi.trans hid) ho' (hop'.trans hp) (hoi'.trans hid')
  · intro tx ph _ _ ht'
    rw [ht] at ht'
    cases ht'

end Recorded

end DufsRam.Maintenance
