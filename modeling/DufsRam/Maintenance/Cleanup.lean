import DufsRam.Maintenance.Invariant

/-!
# Maintenance and the stages of live sessions

While the staging directory stays in place, a session which maintenance has matched under its
claim cannot change before the stage is unlinked, and no session can appear on a stage that it
found unbound.

Results:
* `Sound.step`: the invariant of a stage and its sessions.
* `reachable_exclusive`: an entry and its marker are never both in the set.
* `cleanup_spares_live_stages`: what maintenance unlinks.
* `recreated_stage_unlinked`: what it unlinks if the staging directory is replaced meanwhile.
-/

namespace DufsRam.Maintenance

open StateStore RootedFs Upload

/-! ## The steps of maintenance -/

/-- What a step of maintenance does. -/
inductive Maintained (stage : Stage) (s : Handshake) : Handshake → Prop
  | passes {phase : MaintenancePhase} {scan : MaintenanceScanState} :
      (Base stage s → Knows stage s s.phase → Knows stage s phase) →
      Maintained stage s { s with phase := phase, scan := scan }
  | claims {entry : RootedEntryKey} {phase : MaintenancePhase} {scan : MaintenanceScanState} :
      entry ∉ s.active →
      (∃ expired, s.phase = .keyed expired entry ∧ phase = .claimed expired entry) ∨
        s.phase = .scanKeyed entry ∧ phase = .scanClaimed entry →
      Maintained stage s
        { s with active := insert entry.maintenanceMarker s.active, phase := phase, scan := scan }
  | unlinks {phase : MaintenancePhase} {scan : MaintenanceScanState} :
      (∃ expired entry file, s.phase = .captured expired entry file ∧
        s.upload.stage = some file) ∨ (∃ entry, s.phase = .scanUnbound entry) →
      (∀ s', Knows stage s' phase) →
      Maintained stage s { s.unlinkStage with phase := phase, scan := scan }
  | forgets {sessions : UploadSessions Path} {phase : MaintenancePhase} :
      (∀ key row, sessions.get key = some row → s.upload.sessions.get key = some row) →
      (∀ s', Knows stage s' phase) →
      Maintained stage s { s with upload := { s.upload with sessions := sessions }, phase := phase }
  | drops {entry : RootedEntryKey} :
      Maintained stage s
        { s with active := s.active.erase entry.maintenanceMarker, phase := .idle }

section Maintenance

variable {stage : Stage} {s s' : Handshake}

theorem Maintained.enter {ph : MaintenancePhase} (hk : ∀ s', Knows stage s' ph) :
    Maintained stage s (s.enter ph) :=
  .passes fun _ _ => hk s

theorem Maintained.failed {ph : MaintenancePhase} (hk : ∀ s', Knows stage s' ph) :
    Maintained stage s (s.failed ph) :=
  .passes fun _ _ => hk s

theorem knows_afterRemoval (stage : Stage) (claim : Option RootedEntryKey) (s' : Handshake) :
    Knows stage s' (Handshake.afterRemoval claim) := by
  cases claim with
  | none | some => trivial

variable {expired : ExpiredUploadSession} {e : MaintenanceEvent}

theorem capture_maintained {ent : RootedEntryKey} (hp : s.phase = .rechecked expired ent)
    (f : Option CaptureFault) :
    Maintained stage s (s.capture expired ent f) := by
  unfold Handshake.capture
  split
  · exact .enter fun _ => trivial
  · exact .enter fun _ => trivial
  · exact .failed fun _ => trivial
  · next want hid =>
    split
    · exact .enter fun _ => trivial
    next file _ =>
    split_ifs with hs
    · refine .passes fun _ hk => ?_
      rw [hp] at hk
      exact ⟨hk.1, hk.2, by rw [hid, hs]⟩
    · exact .enter fun _ => trivial

theorem purge_maintained {ent : RootedEntryKey} {file : FileIdentity}
    (hp : s.phase = .captured expired ent file) (f : Option UnlinkFault) :
    Maintained stage s (s.purge expired ent file f) := by
  unfold Handshake.purge
  split_ifs with hs
  · have hc : ∃ expired ent file, s.phase = .captured expired ent file ∧
        s.upload.stage = some file := ⟨expired, ent, file, hp, hs⟩
    split
    · exact .unlinks (.inl hc) fun _ => trivial
    · exact .failed fun _ => trivial
    · exact .unlinks (.inl hc) fun _ => trivial
  · exact .failed fun _ => trivial

theorem removeRecord_maintained (expired : ExpiredUploadSession) (claim : Option RootedEntryKey)
    (now : ℤ) (fl : Bool) : Maintained stage s (s.removeRecord expired claim now fl) := by
  unfold Handshake.removeRecord
  split_ifs
  · exact .failed (knows_afterRemoval stage claim)
  refine .forgets ?_ (knows_afterRemoval stage claim)
  intro key row hg
  unfold removeExpiredUploadSessionIfMatches at hg
  split_ifs at hg
  · exact hg
  · exact (Table.get_of_get_erase hg).2

/-- Under the claim, a session that is still the expired one is the only one to record the stage. -/
theorem Base.matched (h : Base stage s) {now : ℤ}
    (hp : expired.row.session.stagePath = stage.config.stagePath)
    (hm : expiredUploadSessionMatches now s.upload.sessions expired = true) :
    Matched stage s expired := by
  intro file key row hs he hl hid
  simp only [expiredUploadSessionMatches, Bool.and_eq_true, decide_eq_true_eq] at hm
  have hk : expired.key = key :=
    h.recorded.other hs hl hid hm.2 hp he
  have hg := hl.1
  rw [← hk, hm.2] at hg
  exact ⟨hk.symm, (Option.some.inj hg).symm⟩

theorem cleanupStep_maintained (hs : s.cleanupStep stage s.phase e = some s') :
    Maintained stage s s' := by
  unfold Handshake.cleanupStep at hs
  split at hs
  · split at hs
    · cases hs
    · split_ifs at hs with hl
      cases hs
      exact .passes fun _ _ => hl.2.1
  · next expired now fl hp =>
    split_ifs at hs
    · cases hs
      exact .failed fun _ => trivial
    · cases hs
      unfold Handshake.afterFirstMatch
      have hm : Maintained stage s (s.enter (.matched expired)) := by
        refine .passes fun _ hk => ?_
        rw [hp] at hk
        exact hk
      split
      · exact .enter fun _ => trivial
      · exact .enter fun _ => trivial
      · split_ifs
        · exact .enter fun _ => trivial
        · exact hm
      · exact .enter fun _ => trivial
      · exact hm
      · exact hm
    · cases hs
      exact .enter fun _ => trivial
  · next expired fl hp =>
    split_ifs at hs
    · cases hs
      exact .failed fun _ => trivial
    split at hs
    · cases hs
      exact .enter fun _ => trivial
    next ent he =>
    cases hs
    refine .passes fun _ hk => ?_
    rw [hp] at hk
    exact ⟨hk, he⟩
  · next expired ent hp =>
    split at hs
    · cases hs
      exact .enter fun _ => trivial
    next claimed hc =>
    cases hs
    obtain ⟨hf, rfl⟩ := tryClaim_eq_some hc
    exact .claims hf (.inl ⟨expired, hp, rfl⟩)
  · next expired ent now fl hp =>
    split_ifs at hs with hfl hmt
    · cases hs
      exact .failed fun _ => trivial
    · cases hs
      refine .passes fun hb hk => ?_
      rw [hp] at hk
      exact ⟨hk.2, hb.matched hk.1 hmt⟩
    · cases hs
      exact .enter fun _ => trivial
  · next hp =>
    cases hs
    exact capture_maintained hp _
  · next hp =>
    cases hs
    exact purge_maintained hp _
  · cases hs
    exact removeRecord_maintained _ _ _ _
  · cases hs

theorem scanStep_maintained (hs : s.scanStep stage s.phase e = some s') :
    Maintained stage s s' := by
  have hsm : ∀ scan, Maintained stage s { s with scan := scan } :=
    fun scan => .passes fun _ hk => hk
  unfold Handshake.scanStep at hs
  split at hs
  · cases hs
    exact hsm .new
  · split_ifs at hs
    · cases hs
      exact hsm _
    cases hs
    unfold Handshake.snapshot
    split
    · split_ifs
      · exact hsm s.scan
      · exact hsm _
      · exact hsm _
    · exact hsm s.scan
  · cases hs
    exact hsm _
  · split_ifs at hs
    cases hs
    exact .enter fun _ => trivial
  · split_ifs at hs
    · cases hs
      exact .enter fun _ => trivial
    split at hs
    · cases hs
      exact .enter fun _ => trivial
    next ent he =>
    split_ifs at hs
    · cases hs
      exact .enter fun _ => trivial
    · cases hs
      exact .passes fun _ _ => he
  · next ent hp =>
    split at hs
    · cases hs
      exact .enter fun _ => trivial
    next claimed hc =>
    cases hs
    obtain ⟨hf, rfl⟩ := tryClaim_eq_some hc
    exact .claims hf (.inr ⟨hp, rfl⟩)
  · next ent fl hp =>
    split_ifs at hs with hb
    · cases hs
      exact .enter fun _ => trivial
    cases hs
    refine .passes fun _ hk => ?_
    rw [hp] at hk
    refine ⟨hk, ?_⟩
    intro key row hl
    rw [not_or] at hb
    refine hb.2 (Table.any_iff.mpr ⟨key, row, hl.1, ?_⟩)
    simp [hl.2.1, hl.2.2]
  · next ent fl hp =>
    split_ifs at hs
    · cases hs
      exact .enter fun _ => trivial
    · cases hs
      exact .unlinks (.inr ⟨ent, hp⟩) fun _ => trivial
  · cases hs
    exact .drops
  · cases hs

theorem maintenanceStep_maintained (hs : s.maintenanceStep stage e = some s') :
    Maintained stage s s' := by
  unfold Handshake.maintenanceStep at hs
  split_ifs at hs
  obtain hc | ⟨-, hsc⟩ := Option.or_eq_some_iff.mp hs
  · exact cleanupStep_maintained hc
  · exact scanStep_maintained hsc

/-- Maintenance removes rows and the stage. -/
theorem Base.fewer (h : Base stage s) {u : System} (ht : u.task = s.upload.task)
    (hst : u.stage = s.upload.stage ∨ u.stage = none)
    (hr : ∀ key row, u.sessions.get key = some row → s.upload.sessions.get key = some row) :
    Base stage { s with upload := u } := by
  have hs : u.stage.isSome → s.upload.stage.isSome := by
    intro hs
    obtain hsm | hn := hst
    · rw [← hsm]
      exact hs
    · rw [hn] at hs
      cases hs
  refine h.upload (fun hnw => h.directory (hs hnw)) (fun _ => hs) ?_ ?_
    (h.recorded.fewer hst (fun key row hg _ => hr key row hg) (.inl ht))
  · rw [ht]
    exact h.may
  · rw [ht]
    exact h.must

theorem Sound.maintained (h : Sound stage s) (hst : Maintained stage s s') : Sound stage s' := by
  have hb := h.base
  cases hst with
  | passes hk => exact ⟨{ hb with }, hk hb h.knows⟩
  | unlinks _ hk =>
    have hr : Base stage s.unlinkStage := hb.fewer rfl (.inr rfl) fun _ _ hg => hg
    exact ⟨{ hr with }, hk _⟩
  | forgets hrw hk =>
    rename_i sessions ph
    have hr := hb.fewer (u := { s.upload with sessions := sessions }) rfl (.inl rfl) hrw
    exact ⟨{ hr with }, hk _⟩
  | drops =>
    refine ⟨{ hb with exclusive := hb.exclusive.erase _, active := ?_ }, trivial⟩
    intro key hky hs
    refine Finset.mem_erase_of_ne_of_mem (Plain.ne_maintenanceMarker ?_) (hb.active hky hs)
    rw [RootedEntryKey.Plain, (hb.registered (.inr hky)).1]
    exact stage.nul_not_mem
  | claims hf hp =>
    rename_i ent ph scan
    have hk := h.knows
    refine ⟨{ hb with
      exclusive := hb.exclusive.insert_marker hf
      active := fun hky hs => Finset.mem_insert_of_mem (hb.active hky hs) }, ?_⟩
    obtain ⟨expired, hold, rfl⟩ | ⟨hold, rfl⟩ := hp
    · rw [hold] at hk
      exact ⟨hk.1, hk.2, Finset.mem_insert_self _ _⟩
    · rw [hold] at hk
      exact ⟨hk, Finset.mem_insert_self _ _⟩

/-- Every step keeps the invariant. -/
theorem Sound.step (h : Sound stage s) {e : Event} (hst : Steady stage s e)
    (hs : s.step stage e = some s') : Sound stage s' := by
  cases e with
  | upload e => exact h.upload hs hst
  | key => exact h.key hs
  | track => exact h.track hs
  | release =>
    simp only [Handshake.step] at hs
    split_ifs at hs with hi
    cases hs
    exact h.release hi
  | makeDirectory dir => exact h.makeDirectory hs hst
  | removeDirectory => exact h.removeDirectory hs hst
  | trackElsewhere key => exact h.trackElsewhere hs
  | releaseElsewhere key => exact h.releaseElsewhere hs
  | claimElsewhere key => exact h.claimElsewhere hs
  | dropElsewhere => exact h.dropElsewhere hs
  | maintenance e => exact h.maintained (maintenanceStep_maintained hs)

theorem Sound.of_reachable {t : Option TargetEntry}
    (h : (machine stage t).Reachable (Steady stage) s) : Sound stage s := by
  have hi : Sound stage (machine stage t).init := by
    refine ⟨⟨.empty, nofun, fun hk => absurd hk not_keyed_none, nofun, ?_, ?_, nofun, nofun,
      ?_⟩, trivial⟩
    · exact fun hsm => absurd rfl hsm
    · intro task ht
      cases ht
    refine ⟨?_, ?_, ?_⟩
    · intro tx ph file key row ht
      cases ht
    · intro file key row key' row' hst
      cases hst
    · intro tx ph key row ht
      cases ht
  exact h.invariant hi fun _ _ _ _ ih hs hsp => ih.step hs hsp

/-! ## What maintenance unlinks -/

/-- Whatever happens, no entry is in the set together with its marker. -/
theorem reachable_exclusive {t : Option TargetEntry}
    (h : (machine stage t).Reachable (fun _ _ => True) s) :
    Exclusive s.active ∧ ∀ key, s.registration = .keyed key → key.Plain := by
  refine h.invariant
    (I := fun s => Exclusive s.active ∧ ∀ key, s.registration = .keyed key → key.Plain)
    ⟨.empty, fun _ hk => by cases hk⟩ ?_
  rintro s e s' - ⟨he, hp⟩ - hs
  simp only [machine] at hs
  cases e with
  | upload e =>
    simp only [Handshake.step, Handshake.uploadStep] at hs
    split_ifs at hs
    obtain ⟨u, -, rfl⟩ := Option.map_eq_some_iff.mp hs
    split
    · exact ⟨.empty, fun _ hk => by cases hk⟩
    · exact ⟨.empty, fun _ hk => by cases hk⟩
    · exact ⟨he, hp⟩
  | key =>
    simp only [Handshake.step] at hs
    split_ifs at hs
    obtain ⟨key, hky, rfl⟩ := Option.map_eq_some_iff.mp hs
    obtain ⟨dir, -, rfl⟩ := Option.map_eq_some_iff.mp hky
    refine ⟨he, ?_⟩
    intro key hk
    cases hk
    exact stage.nul_not_mem
  | track =>
    simp only [Handshake.step, Handshake.trackStep] at hs
    split at hs
    · next key hk =>
      split_ifs at hs with hm
      · cases hs
        exact ⟨he, fun _ hk => by cases hk⟩
      · cases hs
        exact ⟨he.insert_key (hp key hk) hm, fun _ hk => by cases hk⟩
    · cases hs
  | release =>
    simp only [Handshake.step] at hs
    split_ifs at hs
    cases hs
    unfold Handshake.release
    split
    · exact ⟨he, hp⟩
    · exact ⟨he, fun _ hk => by cases hk⟩
    · exact ⟨he.erase _, fun _ hk => by cases hk⟩
  | makeDirectory | removeDirectory =>
    simp only [Handshake.step] at hs
    split_ifs at hs
    cases hs
    exact ⟨he, hp⟩
  | trackElsewhere key =>
    simp only [Handshake.step] at hs
    split_ifs at hs with ho
    cases hs
    exact ⟨he.insert_key (isElsewhere_eq_true.mp ho.1).1 ho.2, hp⟩
  | releaseElsewhere key =>
    simp only [Handshake.step] at hs
    split_ifs at hs
    cases hs
    exact ⟨he.erase _, hp⟩
  | claimElsewhere key =>
    simp only [Handshake.step] at hs
    split_ifs at hs
    obtain ⟨claimed, hc, rfl⟩ := Option.map_eq_some_iff.mp hs
    obtain ⟨hf, rfl⟩ := tryClaim_eq_some hc
    exact ⟨he.insert_marker hf, hp⟩
  | dropElsewhere =>
    obtain ⟨key, -, rfl⟩ := Option.map_eq_some_iff.mp hs
    exact ⟨he.erase _, hp⟩
  | maintenance e =>
    have hmn : Maintained stage s s' := maintenanceStep_maintained hs
    cases hmn with
    | claims hf => exact ⟨he.insert_marker hf, hp⟩
    | drops => exact ⟨he.erase _, hp⟩
    | _ => exact ⟨he, hp⟩

/-- The stage that a live session records is unlinked only if the session is the expired one that
    maintenance has matched under its claim, and no request has registered the stage. -/
theorem Sound.unlinks (h : Sound stage s) {file : FileIdentity} {key : UploadSessionKey}
    {row : UploadRow Path} (hst : s.step stage (.maintenance e) = some s')
    (hs : s.upload.stage = some file) (hr : s'.upload.stage ≠ some file)
    (hl : Live stage.config s.upload.sessions key row)
    (hid : row.session.stageIdentity = some file) :
    ∃ expired ent, s.phase = .captured expired ent file ∧ key = expired.key ∧
      row = expired.row ∧ s.isRegistered = false ∧ s.entryKey stage = some ent ∧
      ent ∉ s.active := by
  have hk := h.knows
  have hm : Maintained stage s s' := maintenanceStep_maintained hst
  cases hm with
  | unlinks hp =>
    obtain ⟨expired, ent, file', hp, hs'⟩ | ⟨ent, hp⟩ := hp
    · rw [hp] at hk
      obtain ⟨hcl, hmt, he⟩ := hk
      obtain rfl : file = file' := Option.some.inj (hs.symm.trans hs')
      obtain ⟨hky, hrw⟩ := hmt hs he hl hid
      have hpl : ent.Plain := by
        obtain ⟨dir, -, rfl⟩ := Option.map_eq_some_iff.mp hcl.1
        exact stage.nul_not_mem
      have hf : ent ∉ s.active := fun hmm => h.base.exclusive ent hpl ⟨hmm, hcl.2⟩
      exact ⟨expired, ent, hp, hky, hrw, h.base.not_registered hcl (by rw [hs]; rfl), hcl.1, hf⟩
    · rw [hp] at hk
      exact absurd hl hk.2
  | _ => exact absurd hs hr

end Maintenance

/-- No entry is ever in the set together with its marker. As long as the staging directory stays
    in place while maintenance deals with an entry of it, and inodes are not reused, maintenance
    unlinks the file that a live session records only if that session is still the expired one
    which it has matched, and no request has registered the stage. -/
theorem cleanup_spares_live_stages (stage : Stage) (target : Option TargetEntry) :
    (∀ s, (machine stage target).Reachable (fun _ _ => True) s → Exclusive s.active) ∧
    ∀ s e s' file key row, (machine stage target).Reachable (Steady stage) s →
      s.step stage (.maintenance e) = some s' → s.upload.stage = some file →
      s'.upload.stage ≠ some file → Live stage.config s.upload.sessions key row →
      row.session.stageIdentity = some file →
      ∃ expired entry, s.phase = .captured expired entry file ∧ key = expired.key ∧
        row = expired.row ∧ s.isRegistered = false ∧ s.entryKey stage = some entry ∧
        entry ∉ s.active := by
  refine ⟨fun s hs => (reachable_exclusive hs).1, ?_⟩
  intro s e s' file key row hs hsp hst hr hl hi
  exact (Sound.of_reachable hs).unlinks hsp hst hr hl hi

/-- A small instance, for concrete runs. -/
def exampleStage : Stage := ⟨exampleConfig, [115], by decide⟩

/-- An upload creates and records a stage, and stops. -/
def storedRun (directory file : FileIdentity) : List Event :=
  [.upload (.request ⟨7, .fresh, 2, .noReplace, none⟩), .upload (.prepare (.lookup false)),
    .upload (.prepare .inspect), .makeDirectory directory, .upload (.prepare (.create file)),
    .key, .track, .upload (.prepare (.persist 0 none))]

/-- A stage that the scan finds old enough has been registered and recorded. -/
def aged (stage : Stage) (s : Handshake) : Event → Bool
  | .maintenance .visit =>
    s.isRegistered && s.upload.sessions.any fun _ row => stage.config.owns row &&
      decide (row.session.stageIdentity = s.upload.stage)
  | _ => true

/-- The scan takes the key of a stage. The upload fails and removes its stage and the directory; the
    next one creates both again, and registers the stage under its new key. -/
def recreatedRun : List Event :=
  [.maintenance .collect] ++ storedRun ⟨1, 10⟩ ⟨1, 5⟩ ++
    [.maintenance .visit, .maintenance (.entryKey false), .upload (.prepare (.noSpace none)),
      .upload (.rollback none), .upload (.rollback none), .removeDirectory, .release,
      .upload (.request ⟨7, .fresh, 2, .noReplace, none⟩), .upload (.prepare (.lookup false)),
      .upload (.prepare .inspect), .makeDirectory ⟨1, 11⟩, .upload (.prepare (.create ⟨1, 6⟩)),
      .key, .track, .maintenance .claim, .maintenance (.recheck false),
      .upload (.prepare (.persist 0 none))]

/-- The last step unlinks the stage of a registered request whose session records it. -/
def unlinksRegistered (s : Handshake) : Bool :=
  s.isRegistered && decide (s.upload.stage = some ⟨1, 6⟩) &&
    ((s.step exampleStage (.maintenance (.remove false))).any fun s' =>
      decide (s'.upload.stage = none)) &&
    decide (s.upload.sessions.get ⟨7, 1⟩ =
      some ⟨⟨["t"], ["s"], 2, 0, .running, some ⟨1, 6⟩, none⟩, 1000⟩)

/-- Maintenance takes the key of a stage and later unlinks what the staging path names then. If
    the staging directory was replaced in between, its marker does not exclude the upload that
    owns the new stage. -/
theorem recreated_stage_unlinked : ∃ s s' file key row,
      (machine exampleStage none).Reachable (fun s e => aged exampleStage s e = true) s ∧
      s.step exampleStage (.maintenance (.remove false)) = some s' ∧
      s.upload.stage = some file ∧ s'.upload.stage = none ∧
      Live exampleStage.config s.upload.sessions key row ∧
      row.session.stageIdentity = some file ∧ s.isRegistered = true := by
  obtain ⟨s, hs, hp⟩ := ((machine exampleStage none).guarded
    (aged exampleStage)).exists_reachable_of_run recreatedRun unlinksRegistered
    (fun _ _ _ => trivial) (by decide +kernel)
  simp only [unlinksRegistered, Bool.and_eq_true, decide_eq_true_eq] at hp
  obtain ⟨⟨⟨hr, hst⟩, hrm⟩, hg⟩ := hp
  obtain ⟨s', hsp, hn⟩ := (Option.any_eq_true _ _).mp hrm
  exact ⟨s, s', ⟨1, 6⟩, ⟨7, 1⟩, _, hs.of_guarded fun _ _ h => h, hsp, hst,
    of_decide_eq_true hn, ⟨hg, rfl, rfl⟩, rfl, hr⟩

end DufsRam.Maintenance
