import DufsRam.Purge.Ownership
import DufsRam.StateStore.PurgeHistory

/-!
# A deleted object is never lost

Every step of the system keeps the ownership invariant, whatever fails and wherever the
process stops. What the purge and the quarantine do to the directory entries is said once
(`Sheds`): they only take entries out of the trash, to a quarantine name or for good.

Results:
* `sliceStep_sheds`: what one step of a slice does.
* `reachable_owned`: the invariant in every reachable state.
* `deleted_object_recoverable`: where a deleted object can be, that a reconciliation leaves
  shared names alone, and that purge work starts only on what the job is about.
* `tasks_apart`: tasks that run at the same time have different jobs.
-/

namespace DufsRam.Purge

open StateStore RootedFs

/-! ## Taking entries out of the trash -/

/-- Entries leave the trash for a quarantine name or for good; shared names, rows and tasks
    stay as they are. -/
structure Sheds (s s' : System) : Prop where
  eq : ∃ names stat children purged, s' =
    { s with names := names, stat := stat, children := children, purged := purged }
  trash : ∀ d id, s'.names.get (d, .trash id) = none ∨
    s'.names.get (d, .trash id) = s.names.get (d, .trash id)
  shared : ∀ d name, s'.names.get (d, .shared name) = s.names.get (d, .shared name)
  located : ∀ object target, Located s.names s.purged object target →
    Located s'.names s'.purged object target

namespace Sheds

variable {s s' : System}

theorem refl (s : System) : Sheds s s :=
  ⟨⟨s.names, s.stat, s.children, s.purged, rfl⟩, fun _ _ => Or.inr rfl, fun _ _ => rfl,
    fun _ _ h => h⟩

theorem shrinks (h : Sheds s s') : s.ground.Shrinks s'.ground := by
  obtain ⟨ns, stat, children, purged, rfl⟩ := h.eq
  exact ⟨rfl, rfl, h.trash⟩

theorem owned (h : Sheds s s') (hs : s.Owned) : s'.Owned := by
  have hg := h.shrinks
  have hl := h.located
  obtain ⟨ns, stat, children, purged, rfl⟩ := h.eq
  exact hs.of_shrinks hg rfl rfl rfl rfl fun itn hi => hl _ _ (hs.located itn hi)

end Sheds

variable {s s' : System} {source destination : Place} {stat : Stat} {fault : Option Fault}

/-- A rename without replacement moves the occupant to a free name. -/
theorem renameNoreplace_ok (h : s.renameNoreplace source destination stat = .ok s') :
    ∃ i stat', s.names.get source = some i ∧ s.names.get destination = none ∧
      s' = { s with names := (s.names.erase source).put destination i, stat := stat' } := by
  unfold System.renameNoreplace at h
  cases hs : s.names.get source with
  | none => simp [hs] at h
  | some i =>
    simp only [hs] at h
    by_cases hd : (s.names.get destination).isSome
    · simp [hd] at h
    · simp only [hd, Bool.false_eq_true, if_false, Except.ok.injEq] at h
      exact ⟨i, _, rfl, by simpa using hd, h.symm⟩

theorem renameNoreplace_noent (h : s.renameNoreplace source destination stat = .error .noent) :
    s.names.get source = none := by
  unfold System.renameNoreplace at h
  cases hs : s.names.get source with
  | none => rfl
  | some i =>
    simp only [hs] at h
    by_cases hd : (s.names.get destination).isSome <;> simp [hd] at h

/-- An object that is not moved stays where it is, and the one that is moved is where it was
    moved to. -/
theorem Located.rename {ns : Table Place FileIdentity} {purged : List FileIdentity}
    {i object : FileIdentity} {target : Place} (hs : ns.get source = some i)
    (hf : ns.get destination = none)
    (hds : (∃ d id, destination = (d, .quarantine id)) ∨ ∃ d id, destination = (d, .trash id))
    (h : Located ns purged object target) :
    Located ((ns.erase source).put destination i) purged object target := by
  have hm : ∀ p, ns.get p = some object →
      ((ns.erase source).put destination i).get p = some object ∨
        ((ns.erase source).put destination i).get destination = some object := by
    intro p hp
    have hne : p ≠ destination := by rintro rfl; rw [hf] at hp; cases hp
    by_cases hps : p = source
    · subst hps
      rw [hs] at hp
      exact Or.inr (by rw [Table.get_put, if_pos rfl]; exact hp)
    · exact Or.inl (by rw [Table.get_put, if_neg hne, Table.get_erase, if_neg hps]; exact hp)
  have ht : ((ns.erase source).put destination i).get destination = some object →
      Located ((ns.erase source).put destination i) purged object target := by
    intro hd
    rcases hds with ⟨d, id, rfl⟩ | ⟨d, id, rfl⟩
    · exact .quarantine d id hd
    · exact .trash d id hd
  cases h with
  | purged hp => exact .purged hp
  | target hp => exact (hm _ hp).elim .target ht
  | quarantine d id hp => exact (hm _ hp).elim (.quarantine d id) ht
  | trash d id hp => exact (hm _ hp).elim (.trash d id) ht

/-- A rename from a trash name to a quarantine name. -/
theorem Sheds.rename {d d' : FileIdentity} {id id' : Uuid}
    (h : s.renameNoreplace (d, .trash id) (d', .quarantine id') stat = .ok s') :
    Sheds s s' ∧ s'.names.get (d, .trash id) = none := by
  obtain ⟨i, stat', hs, hf, rfl⟩ := renameNoreplace_ok h
  refine ⟨⟨⟨_, _, _, _, rfl⟩, ?_, ?_, ?_⟩, ?_⟩
  · intro e k
    by_cases hk : ((e, Name.trash k) : Place) = (d, .trash id) <;> simp [hk]
  · simp [Table.get_put, Table.get_erase]
  · exact fun o tgt => Located.rename hs hf (Or.inl ⟨d', id', rfl⟩)
  · simp [Table.get_put, Table.get_erase]

/-! ## Slices -/

/-- What the work on `job` can rely on after a step of a slice. -/
def SliceOwned (g : Ground) (job : PurgeRow Place) : SliceResult → Prop
  | .pending e => g.EntryOwned job e
  | .complete => g.names.get job.trashPath = none
  | .invalidData => True
  | .error => True

namespace TrashEntry

variable {c : Config} {s s' : System} {e : TrashEntry}

/-- What checks come to that move nothing: an error, no entry, or an entry that stays at its
    name. -/
inductive Settles (e : TrashEntry) (s : System) : SliceResult → Prop
  | error : Settles e s .error
  | complete (h : s.names.get e.place = none) : Settles e s .complete
  | stays (phase : SlicePhase) (h : phase ≠ .isolated) : Settles e s (e.enter phase)

variable {syncFault : Bool} {phase : SlicePhase} {d : FileIdentity} {key : Uuid}

theorem Settles.gone (h : s.names.get e.place = none) :
    Settles e s (TrashEntry.gone syncFault) := by
  cases syncFault
  · exact .complete h
  · exact .error

theorem Settles.fail (inv : Bool) : Settles e s (e.fail inv) := by
  cases inv
  · exact .error
  · exact .stays .ambiguous (by decide)

theorem begin_settles (sf of rf syncFault : Bool) :
    Settles e s (e.begin c s sf of rf syncFault) := by
  have ha : Settles e s (e.enter .ambiguous) := .stays .ambiguous (by decide)
  unfold TrashEntry.begin
  by_cases hd : e.isDir = true
  · rw [if_pos hd]
    split_ifs with _ _ hn hn
    · exact .error
    · exact .gone hn
    · exact .fail _
    · exact .gone hn
    · exact .error
    · exact .stays .deleting (by decide)
    · exact ha
  · rw [if_neg hd]
    split_ifs with _ _ _ hn
    · exact .error
    · exact ha
    · exact .fail _
    · exact .gone hn
    · exact ha
    · exact .stays .emptied (by decide)

theorem finishChildren_settles (err : Option Bool) (syncFault : Bool) :
    Settles e s (e.finishChildren s err syncFault) := by
  unfold TrashEntry.finishChildren
  cases err with
  | some inv => exact .fail inv
  | none =>
    cases hn : s.names.get e.place with
    | none => exact .gone hn
    | some i =>
      dsimp only
      split_ifs
      · exact .stays .emptied (by decide)
      · exact .stays .ambiguous (by decide)

@[simp] theorem enter_inj {p q : SlicePhase} : e.enter p = e.enter q ↔ p = q := by
  simp [TrashEntry.enter]

theorem gone_ne_enter : TrashEntry.gone syncFault ≠ e.enter phase := by
  cases syncFault <;> simp [TrashEntry.gone, TrashEntry.enter]

theorem eq_ambiguous_of_fail {inv : Bool} (h : e.fail inv = e.enter phase) :
    phase = .ambiguous := by
  cases inv
  · simp [TrashEntry.fail, TrashEntry.enter] at h
  · exact (enter_inj.mp h).symm

/-- An occupant that reports what the pinned inode reports is the pinned inode. -/
theorem occupant_eq {named : Option FileIdentity} (hs : named ≠ none)
    (hsm : (named.any fun i => decide
      (s.replacementTargetIdentity i ≠ s.replacementTargetIdentity e.identity)) = false) :
    named = some e.identity := by
  cases named with
  | none => exact absurd rfl hs
  | some i =>
    have heq : s.replacementTargetIdentity i = s.replacementTargetIdentity e.identity := by
      simpa using hsm
    rw [show i = e.identity from congrArg ExistingReplacementTarget.identity heq]

/-- Deleting starts only on the pinned inode, with the revision that was recorded. -/
theorem begin_starts {sf of rf : Bool} (hp : phase ≠ .ambiguous)
    (h : e.begin c s sf of rf syncFault = e.enter phase) :
    s.names.get e.place = some e.identity ∧
      c.purgeRevision (s.replacementTargetIdentity e.identity) = e.trashRevision := by
  unfold TrashEntry.begin at h
  -- Only the last branch of each kind enters a phase other than `ambiguous`.
  have he : SliceResult.error ≠ e.enter phase := by simp [TrashEntry.enter]
  by_cases hdr : e.isDir = true
  · rw [if_pos hdr] at h
    split_ifs at h with _ _ _ hn _ hk
    · exact absurd h he
    · exact absurd h gone_ne_enter
    · exact absurd (eq_ambiguous_of_fail h) hp
    · exact absurd h gone_ne_enter
    · exact absurd h he
    · exact ⟨occupant_eq hn hk.2, by simpa using hk.1⟩
    · exact absurd (enter_inj.mp h).symm hp
  · rw [if_neg hdr] at h
    split_ifs at h with _ hr _ hn hd
    · exact absurd h he
    · exact absurd (enter_inj.mp h).symm hp
    · exact absurd (eq_ambiguous_of_fail h) hp
    · exact absurd h gone_ne_enter
    · exact absurd (enter_inj.mp h).symm hp
    · exact ⟨occupant_eq hn (by simpa using hd), by simpa using hr⟩

theorem sheds_childRemoved (stat : Stat) : Sheds s (e.childRemoved s stat) :=
  ⟨⟨s.names, _, _, s.purged, rfl⟩, fun _ _ => Or.inr rfl, fun _ _ => rfl, fun _ _ h => h⟩

/-- The entry that is removed was at a quarantine name, and is remembered as purged. -/
theorem sheds_removed {id : Uuid} (hpl : e.place = (d, .quarantine id))
    (hg : s.names.get e.place = some e.identity) : Sheds s (e.removed s) := by
  have ho : ∀ p, p ≠ e.place → (e.removed s).names.get p = s.names.get p := by
    intro p hp
    simp [TrashEntry.removed, if_neg hp]
  refine ⟨⟨_, s.stat, s.children, _, rfl⟩, fun d' id' => Or.inr (ho _ ?_),
    fun d' name => ho _ ?_, ?_⟩
  · rw [hpl]; simp
  · rw [hpl]; simp
  intro object target h
  by_cases hob : object = e.identity
  · exact .purged (by rw [hob]; exact List.mem_cons_self)
  -- Any other object was at another name.
  have hs : ∀ p, s.names.get p = some object → (e.removed s).names.get p = some object := by
    intro p hp
    rw [ho p]
    · exact hp
    · rintro rfl
      exact hob (Option.some.inj (hp.symm.trans hg))
  cases h with
  | purged hp => exact .purged (List.mem_cons_of_mem _ hp)
  | target hp => exact .target (hs _ hp)
  | quarantine d id hp => exact .quarantine d id (hs _ hp)
  | trash d id hp => exact .trash d id (hs _ hp)

variable {job : PurgeRow Place}

/-- Outside the last two phases the entry is at the trash path of its job. -/
theorem place_eq (he : s.ground.EntryOwned job e) (hi : e.phase ≠ .isolated)
    (ha : e.phase ≠ .ambiguous) : e.place = job.trashPath :=
  he.place.elim And.left fun h => (h.2.2.elim hi ha).elim

theorem Settles.sliceOwned {r : SliceResult} (h : Settles e s r)
    (he : s.ground.EntryOwned job e) (hp : e.place = job.trashPath) :
    SliceOwned s.ground job r := by
  cases h with
  | error => trivial
  | complete hn => rw [hp] at hn; exact hn
  | stays phase hph => exact ⟨he.identity_eq, he.revision_eq, Or.inl ⟨hp, hph⟩⟩

theorem isolate_sheds (id : Uuid) (fault : Option Fault) (last syncFault : Bool) (stat : Stat)
    (hpt : job.trashPath = (d, .trash key)) (he : s.ground.EntryOwned job e)
    (hp : e.phase = .emptied) :
    Sheds s (e.isolate s id fault last syncFault stat).2 ∧
      SliceOwned (e.isolate s id fault last syncFault stat).2.ground job
        (e.isolate s id fault last syncFault stat).1 := by
  have hpl := place_eq he (by rw [hp]; decide) (by rw [hp]; decide)
  have hpn : s.ground.EntryOwned job e := he
  unfold TrashEntry.isolate
  dsimp only
  cases hr : s.renameNoreplace e.place (e.place.1, .quarantine id) stat with
  | ok s' =>
    rw [hpl, hpt] at hr
    obtain ⟨hs, hv⟩ := Sheds.rename hr
    rcases fault with _ | (_ | _)
    · refine ⟨hs, he.identity_eq, he.revision_eq, Or.inr ⟨?_, ⟨e.place.1, id, rfl⟩, Or.inl rfl⟩⟩
      rw [hpt]
      exact hv
    · exact ⟨Sheds.refl s, trivial⟩
    · exact ⟨hs, trivial⟩
  | error errno =>
    have hrt : SliceOwned s.ground job (if last then .error else .pending e) := by
      cases last
      · exact hpn
      · trivial
    rcases fault with _ | (_ | _) <;> cases errno <;>
      first
        | exact ⟨Sheds.refl s, (Settles.gone (renameNoreplace_noent hr)).sliceOwned he hpl⟩
        | exact ⟨Sheds.refl s, hrt⟩
        | exact ⟨Sheds.refl s, trivial⟩

theorem unlink_sheds (vf : Bool) (fault : Option Fault) (syncFault : Bool)
    (hpt : job.trashPath = (d, .trash key)) (he : s.ground.EntryOwned job e)
    (hph : e.phase = .isolated) :
    Sheds s (e.unlink s vf fault syncFault).2 ∧
      SliceOwned (e.unlink s vf fault syncFault).2.ground job
        (e.unlink s vf fault syncFault).1 := by
  obtain ⟨hvc, ⟨d', id, hp⟩, -⟩ := he.place.resolve_left fun h => h.2 hph
  have ha : ∀ {g : Ground}, g.names.get job.trashPath = none →
      SliceOwned g job (e.enter .ambiguous) := fun hv =>
    ⟨he.identity_eq, he.revision_eq, Or.inr ⟨hv, ⟨d', id, hp⟩, Or.inr rfl⟩⟩
  unfold TrashEntry.unlink
  by_cases hc : vf ∨ s.names.get e.place ≠ some e.identity ∨ fault = some .fails
  · rw [if_pos hc]
    exact ⟨Sheds.refl s, ha hvc⟩
  have hg : s.names.get e.place = some e.identity := by
    by_contra hne
    exact hc (Or.inr (Or.inl hne))
  have hs := sheds_removed hp hg
  have hv' : (e.removed s).names.get job.trashPath = none := by
    have hv : s.names.get job.trashPath = none := hvc
    rw [hpt] at hv ⊢
    exact hs.shrinks.vacant hv
  split_ifs
  · exact ⟨hs, ha hv'⟩
  refine ⟨hs, ?_⟩
  cases syncFault
  · exact hv'
  · trivial

theorem quarantine_sheds (id : Uuid) (fault : Option Fault) (last syncFault : Bool) (stat : Stat)
    (hpt : job.trashPath = (d, .trash key)) (he : s.ground.EntryOwned job e) :
    Sheds s (e.quarantine s id fault last syncFault stat).2 ∧
      SliceOwned (e.quarantine s id fault last syncFault stat).2.ground job
        (e.quarantine s id fault last syncFault stat).1 := by
  have hs : ∀ {g : Ground}, SliceOwned g job (if syncFault then .error else .invalidData) := by
    intro g
    cases syncFault <;> trivial
  have hr : SliceOwned s.ground job (if last then .error else .pending e) := by
    cases last
    · exact he
    · trivial
  unfold TrashEntry.quarantine
  rcases he.place with ⟨hp, -⟩ | ⟨-, ⟨d', id', hp⟩, -⟩
  · rw [hp, hpt]
    cases hrn : s.renameNoreplace (d, .trash key) (d, .quarantine id) stat with
    | ok s' =>
      obtain ⟨hsh, -⟩ := Sheds.rename hrn
      rcases fault with _ | (_ | _)
      · exact ⟨hsh, hs⟩
      · exact ⟨Sheds.refl s, trivial⟩
      · exact ⟨hsh, trivial⟩
    | error errno =>
      rcases fault with _ | (_ | _) <;> cases errno <;>
        first
          | exact ⟨Sheds.refl s, hs⟩
          | exact ⟨Sheds.refl s, hr⟩
          | exact ⟨Sheds.refl s, trivial⟩
  · rw [hp]
    exact ⟨Sheds.refl s, hs⟩

/-- One step of the slices of an owned entry. -/
theorem sliceStep_sheds {ev : SliceEvent} {r : SliceResult}
    (hpt : job.trashPath = (d, .trash key)) (he : s.ground.EntryOwned job e)
    (h : e.sliceStep c s ev = some (r, s')) : Sheds s s' ∧ SliceOwned s'.ground job r := by
  have hpl : e.phase = .captured ∨ e.phase = .deleting → e.place = job.trashPath := by
    rintro (hp | hp) <;> exact place_eq he (by rw [hp]; decide) (by rw [hp]; decide)
  cases ev with
  | begin sf of rf syncFault =>
    obtain ⟨hp, hr⟩ := Option.ite_none_right_eq_some.mp h
    obtain ⟨rfl, rfl⟩ := Prod.mk.inj (Option.some.inj hr)
    exact ⟨Sheds.refl s, (begin_settles ..).sliceOwned he (hpl (Or.inl hp))⟩
  | removeChild removed err stat =>
    obtain ⟨⟨hp, -⟩, hr⟩ := Option.ite_none_right_eq_some.mp h
    obtain ⟨rfl, rfl⟩ := Prod.mk.inj (Option.some.inj hr)
    have hsh : Sheds s (if removed then e.childRemoved s stat else s) := by
      cases removed
      · exact Sheds.refl s
      · exact sheds_childRemoved stat
    have hg : (if removed then e.childRemoved s stat else s).ground = s.ground := by
      cases removed <;> rfl
    refine ⟨hsh, ?_⟩
    rw [hg]
    cases err with
    | none => exact he
    | some inv => exact (Settles.fail inv).sliceOwned he (hpl (Or.inr hp))
  | finishChildren err syncFault =>
    obtain ⟨⟨hp, -⟩, hr⟩ := Option.ite_none_right_eq_some.mp h
    obtain ⟨rfl, rfl⟩ := Prod.mk.inj (Option.some.inj hr)
    exact ⟨Sheds.refl s, (finishChildren_settles ..).sliceOwned he (hpl (Or.inr hp))⟩
  | isolate id fault last syncFault stat =>
    obtain ⟨hp, hr⟩ := Option.ite_none_right_eq_some.mp h
    have hs := isolate_sheds id fault last syncFault stat hpt he hp
    rw [Option.some.inj hr] at hs
    exact hs
  | unlink vf fault syncFault =>
    obtain ⟨hp, hr⟩ := Option.ite_none_right_eq_some.mp h
    have hs := unlink_sheds vf fault syncFault hpt he hp
    rw [Option.some.inj hr] at hs
    exact hs
  | quarantine id fault last syncFault stat =>
    obtain ⟨-, hr⟩ := Option.ite_none_right_eq_some.mp h
    have hs := quarantine_sheds id fault last syncFault stat hpt he
    rw [Option.some.inj hr] at hs
    exact hs

end TrashEntry

/-- A quarantine takes at most the occupant of the trash path away; when it is done, the
    path is empty. -/
theorem quarantineInternalTrash_sheds {d : FileIdentity} {key id : Uuid} {last syncFault : Bool}
    {r : QuarantineResult}
    (h : s.quarantineInternalTrash (d, .trash key) id fault last syncFault stat = (r, s')) :
    Sheds s s' ∧ (r = .done → s'.names.get (d, .trash key) = none) := by
  unfold System.quarantineInternalTrash at h
  cases hr : s.renameNoreplace (d, .trash key) (d, .quarantine id) stat with
  | ok t =>
    obtain ⟨hs, hv⟩ := Sheds.rename hr
    rw [hr] at h
    rcases fault with _ | (_ | _) <;> obtain ⟨rfl, rfl⟩ := Prod.mk.inj h
    · exact ⟨hs, fun _ => hv⟩
    · exact ⟨Sheds.refl s, nofun⟩
    · exact ⟨hs, nofun⟩
  | error errno =>
    rw [hr] at h
    have hrt : (if last then QuarantineResult.failed else .retry) ≠ .done := by
      cases last <;> decide
    rcases fault with _ | (_ | _) <;> cases errno <;> obtain ⟨rfl, rfl⟩ := Prod.mk.inj h <;>
      first
        | exact ⟨Sheds.refl s, fun _ => renameNoreplace_noent hr⟩
        | exact ⟨Sheds.refl s, fun hd => absurd hd hrt⟩
        | exact ⟨Sheds.refl s, nofun⟩

/-! ## Steps -/

namespace System.Owned

variable {c : Config} {s s' : System}

variable {jobs : PurgeJobs Place} {key : PurgeJobKey} {row : PurgeRow Place} {w : PurgeWork}

/-- A call on the rows takes effect or not. -/
theorem applied (h : s.Owned) (fault : Option Fault)
    (hn : ({ s with jobs := jobs } : System).Owned) :
    ({ s with jobs := Purge.applied fault s.jobs jobs } : System).Owned := by
  unfold Purge.applied
  by_cases hf : fault = some .fails
  · rw [if_pos hf]; exact h
  · rw [if_neg hf]; exact hn

theorem acquire (h : s.Owned) {n : ℕ} (hg : s.jobs.get key = some row)
    (hs : row.state = .prepared) (hl : s.leaseFree row = true) :
    ({ s with
        nextTask := n
        reconcilers := s.reconcilers.put s.nextTask
          ⟨key, row.targetPath, row.trashPath, .leased⟩ } : System).Owned := by
  obtain ⟨hky, htr⟩ := h.sound.rows key row hg
  simp only [System.leaseFree, Bool.and_eq_true, Bool.not_eq_true', Table.any_eq_false_iff,
    decide_eq_false_iff_not, not_or] at hl
  obtain ⟨hd, hre⟩ := hl
  -- The lease rules out every task that has the same key.
  have hrc : ∀ m r, s.reconcilers.get m = some r → r.key ≠ key := by
    rintro m r hr rfl
    obtain ⟨row', hr', -, htg, -⟩ := (h.reconcilers m r hr).prepared
    obtain rfl : row = row' := Option.some.inj (hg.symm.trans hr')
    exact (hre m r hr).1 htg.symm
  have hdl : ∀ m t, s.deletes.get m = some t → t.key ≠ key := by
    rintro m t ht rfl
    exact (hd m t ht).1 ((h.deletes m t ht).target_eq row hg).symm
  exact h.setReconciler ⟨hky, htr, ⟨row, hg, hs, rfl, rfl⟩, nofun⟩
    (fun m r hr hk => absurd hk (hrc m r hr)) hdl

/-- The row of a reconciliation that found its trash path empty can go. -/
theorem removeReconciled (h : s.Owned) {i : ℕ} {r : Reconciler} (fault : Option Fault)
    (hg : s.reconcilers.get i = some r) (hp : r.phase = .vacant) :
    (({ s with jobs := Purge.applied fault s.jobs (removePurgeJob s.jobs r.key).2 } :
      System).endReconciler i).Owned := by
  have ho := h.reconcilers i r hg
  obtain ⟨row, hr, -, -, htr⟩ := ho.prepared
  have he := h.endReconciler i
  refine he.applied (s := s.endReconciler i) fault (he.erase ⟨?_, ?_⟩ ?_)
  · intro n t ht hk
    exact absurd hk (h.apart n i t r ht hg)
  · intro n r' hr' hk
    obtain ⟨hni, hr'⟩ := Table.get_of_get_erase hr'
    exact hni (h.reconcilers_apart n i r' r hr' hg hk)
  · intro row' hrw'
    obtain rfl : row = row' := Option.some.inj (hr.symm.trans hrw')
    rw [htr]
    exact ho.vacant hp

/-- A step of a reconciliation keeps the invariant and leaves the shared names alone. -/
theorem reconcileStep (h : s.Owned) {e : ReconcileEvent} (hst : s.reconcileStep e = some s') :
    s'.Owned ∧ ∀ d name, s'.names.get (d, .shared name) = s.names.get (d, .shared name) := by
  cases e with
  | acquire key =>
    simp only [System.reconcileStep] at hst
    split at hst
    · next row hg =>
      obtain ⟨⟨hsta, hl⟩, ⟨⟩⟩ := Option.ite_none_right_eq_some.mp hst
      exact ⟨h.acquire hg hsta hl, fun _ _ => rfl⟩
    · cases hst
  | inspect i fault =>
    simp only [System.reconcileStep] at hst
    split at hst
    · next r hg =>
      obtain ⟨-, ⟨⟩⟩ := Option.ite_none_right_eq_some.mp hst
      have ho := h.reconcilers i r hg
      split_ifs with _ hoc
      · exact ⟨h.endReconciler i, fun _ _ => rfl⟩
      · exact ⟨h.putReconciler hg ⟨ho.key_mem, ho.trash_eq, ho.prepared, nofun⟩, fun _ _ => rfl⟩
      refine ⟨h.putReconciler hg ⟨ho.key_mem, ho.trash_eq, ho.prepared, fun _ => ?_⟩,
        fun _ _ => rfl⟩
      show s.names.get r.trash = none
      simpa using hoc
    · cases hst
  | quarantine i id fault last syncFault stat =>
    simp only [System.reconcileStep] at hst
    split at hst
    · next r hg =>
      obtain ⟨-, hs⟩ := Option.ite_none_right_eq_some.mp hst
      have ho := h.reconcilers i r hg
      rcases hq : s.quarantineInternalTrash r.trash id fault last syncFault stat with ⟨res, t⟩
      rw [hq] at hs
      rw [ho.trash_eq] at hq
      obtain ⟨hsd, hd⟩ := quarantineInternalTrash_sheds hq
      have ht := hsd.owned h
      have hsh := hsd.shared
      have hg' : t.reconcilers.get i = some r := by
        obtain ⟨_, _, _, _, rfl⟩ := hsd.eq
        exact hg
      cases res <;> obtain ⟨⟩ := hs
      · have ho' := ht.reconcilers i r hg'
        refine ⟨ht.putReconciler hg' ⟨ho'.key_mem, ho'.trash_eq, ho'.prepared, fun _ => ?_⟩, hsh⟩
        rw [ho.trash_eq]
        exact hd rfl
      · exact ⟨ht, hsh⟩
      · exact ⟨ht.endReconciler i, hsh⟩
    · cases hst
  | remove i fault =>
    simp only [System.reconcileStep] at hst
    split at hst
    · next r hg =>
      obtain ⟨hp, ⟨⟩⟩ := Option.ite_none_right_eq_some.mp hst
      exact ⟨h.removeReconciled fault hg hp, fun _ _ => rfl⟩
    · cases hst

/-- A row that is replaced by the same row in another state, neither of them prepared. -/
theorem putRow (h : s.Owned) {row' : PurgeRow Place} (hg : s.jobs.get key = some row)
    (hs : SameRow row row') :
    ({ s with jobs := s.jobs.put key row' } : System).Owned := by
  refine h.of_rows_kept ?_ ?_
  · intro k r hr
    rcases Table.get_put_cases hr with ⟨rfl, rfl⟩ | ⟨-, hr⟩
    · exact ⟨row, hg, hs⟩
    · exact ⟨r, hr, ⟨rfl, rfl, rfl, rfl, Iff.rfl⟩⟩
  · intro k r hr
    by_cases hk : k = key
    · subst hk
      obtain rfl : row = r := Option.some.inj (hg.symm.trans hr)
      exact ⟨row', by rw [Table.get_put, if_pos rfl], hs⟩
    · exact ⟨r, Table.get_put_of_ne hr hk, ⟨rfl, rfl, rfl, rfl, Iff.rfl⟩⟩

theorem retry (h : s.Owned) (att : ℤ) (key : PurgeJobKey) :
    ({ s with jobs := (retryPurgeJob att s.jobs key).2 } : System).Owned := by
  unfold retryPurgeJob
  cases hg : s.jobs.get key with
  | none => exact h
  | some row =>
    dsimp only
    by_cases hs : row.state = .claimed
    · rw [if_pos hs]
      exact h.putRow hg ⟨rfl, rfl, rfl, rfl, by simp [hs]⟩
    · rw [if_neg hs]
      exact h

/-- A claimed row whose trash path is empty can go. -/
theorem completeJob (h : s.Owned) (key : PurgeJobKey)
    (hv : ∀ row, s.jobs.get key = some row → s.names.get row.trashPath = none) :
    ({ s with jobs := (completePurgeJob s.jobs key).2 } : System).Owned := by
  unfold completePurgeJob
  cases hg : s.jobs.get key with
  | none => exact h
  | some row =>
    dsimp only
    by_cases hs : row.state = .claimed
    · rw [if_pos hs]
      refine h.erase (h.released ?_) hv
      intro row' hr' hp
      obtain rfl : row = row' := Option.some.inj (hg.symm.trans hr')
      rw [hs] at hp
      cases hp
    · rw [if_neg hs]
      exact h

/-- The phases of a work that promise nothing. -/
theorem putIdle (h : s.Owned) {i : ℕ} {phase : WorkPhase} (hw : s.ground.WorkOwned w)
    (hc : ∀ q, phase ≠ .completing q) (hs : ∀ e, phase ≠ .slicing e) :
    (s.putWork i w phase).Owned :=
  h.putWork ⟨hw.key_mem, hw.trash_eq, hw.row, fun q hq => absurd hq (hc q),
    fun e he => absurd he (hs e)⟩

/-- The work on a claimed row, from what `openPurgeWork` finds. -/
theorem openWork (h : s.Owned) {i : ℕ} (fault : Bool) (hk : w.key ∈ s.usedKeys)
    (hg : s.jobs.get w.key = some row) (hs : row.state = .claimed) :
    (s.putWork i { w with job := row } (s.openPurgeWork c row fault)).Owned := by
  have ht := (h.sound.rows w.key row hg).2
  have hr : ∀ row', s.jobs.get w.key = some row' → row'.state ≠ .prepared ∧
      row'.trashPath = row.trashPath ∧ row'.sourceIdentity = row.sourceIdentity ∧
      row'.trashRevision = row.trashRevision := by
    intro row' hr'
    obtain rfl : row = row' := Option.some.inj (hg.symm.trans hr')
    exact ⟨by rw [hs]; decide, rfl, rfl, rfl⟩
  have hw : ∀ phase, (∀ q, phase = .completing q → s.names.get row.trashPath = none) →
      (∀ e, phase = .slicing e → s.ground.EntryOwned row e) →
      (s.putWork i { w with job := row } phase).Owned := fun phase hv hen =>
    h.putWork ⟨hk, ht, hr, hv, hen⟩
  unfold System.openPurgeWork
  cases hrv : row.trashRevision with
  | none => exact hw _ nofun nofun
  | some rev =>
    cases fault with
    | true => exact hw _ nofun nofun
    | false =>
      simp only [Bool.false_eq_true, if_false]
      cases hn : s.names.get row.trashPath with
      | none => exact hw _ (fun _ _ => hn) nofun
      | some j =>
        dsimp only
        split_ifs with hm
        · refine hw _ nofun ?_
          rintro e he
          obtain rfl := WorkPhase.slicing.inj he
          exact ⟨hm.2.2, hrv.symm, Or.inl ⟨rfl, nofun⟩⟩
        · exact hw _ nofun nofun

/-- What the result of a slice leads to. -/
theorem processWork (h : s.Owned) {i : ℕ} {r : SliceResult} (hw : s.ground.WorkOwned w)
    (hr : SliceOwned s.ground w.job r) :
    (s.putWork i w (System.processPurgeWork r)).Owned := by
  cases r with
  | pending e =>
    refine h.putWork ⟨hw.key_mem, hw.trash_eq, hw.row, nofun, ?_⟩
    intro e' he'
    obtain rfl := WorkPhase.slicing.inj he'
    exact hr
  | complete => exact h.putWork ⟨hw.key_mem, hw.trash_eq, hw.row, fun _ _ => hr, nofun⟩
  | invalidData | error => exact h.putIdle hw nofun nofun

theorem claimJob (h : s.Owned) {now : ℤ} {job : PurgeRow Place}
    (hcl : claimPurgeJob now s.jobs key = some (job, jobs)) :
    ({ s with jobs := jobs } : System).Owned ∧ jobs.get key = some job ∧
      job.state = .claimed ∧ key ∈ s.usedKeys := by
  unfold claimPurgeJob at hcl
  cases hg : s.jobs.get key with
  | none => simp [hg] at hcl
  | some row =>
    rw [hg] at hcl
    obtain ⟨⟨hs, -⟩, hc⟩ := Option.ite_none_right_eq_some.mp hcl
    obtain ⟨rfl, rfl⟩ := Prod.mk.inj (Option.some.inj hc)
    exact ⟨h.putRow hg ⟨rfl, rfl, rfl, rfl, by simp [hs]⟩,
      by rw [Table.get_put, if_pos rfl], rfl, (h.sound.rows key row hg).1⟩

/-- A step of purge work keeps the invariant. -/
theorem workStep (h : s.Owned) {e : WorkEvent} (hst : s.workStep c e = some s') : s'.Owned := by
  cases e with
  | claim key now fault =>
    simp only [System.workStep] at hst
    cases hc : claimPurgeJob now s.jobs key with
    | none => simp [hc] at hst
    | some claimed =>
      obtain ⟨job, jobs⟩ := claimed
      rw [hc] at hst
      obtain ⟨⟩ := hst
      obtain ⟨hj, hjb, hsta, hk⟩ := h.claimJob hc
      by_cases hf : fault = none
      · subst hf
        have htr := (hj.sound.rows key job hjb).2
        have hn : (({ s with jobs := jobs } : System).putWork s.nextTask
            ⟨key, job, .opening⟩ .opening).Owned := by
          refine hj.putWork ⟨hk, htr, ?_, nofun, nofun⟩
          intro row hrw
          obtain rfl : job = row := Option.some.inj (hjb.symm.trans hrw)
          exact ⟨by rw [hsta]; decide, rfl, rfl, rfl⟩
        exact { hn with }
      · rw [if_neg hf]
        exact h.applied fault hj
  | capture i stf fault =>
    simp only [System.workStep] at hst
    split at hst
    · next w hg =>
      obtain ⟨-, hs⟩ := Option.ite_none_right_eq_some.mp hst
      split_ifs at hs
      · obtain ⟨⟩ := hs
        exact h
      cases hrw : s.jobs.get w.key with
      | none =>
        rw [hrw] at hs
        obtain ⟨⟩ := hs
        exact h.endWork i
      | some row =>
        rw [hrw] at hs
        obtain ⟨⟩ := hs
        split_ifs with hsta
        · exact h.openWork fault (h.works i w hg).key_mem hrw hsta
        · exact h.endWork i
    · cases hst
  | slice i ev =>
    simp only [System.workStep] at hst
    split at hst
    · next w hg =>
      have ho := h.works i w hg
      split at hst
      · next ent hp =>
        obtain ⟨⟨r, t⟩, hr, rfl⟩ := Option.map_eq_some_iff.mp hst
        obtain ⟨hsh, hsl⟩ :=
          TrashEntry.sliceStep_sheds ho.trash_eq (ho.entry ent hp) hr
        exact (hsh.owned h).processWork (hsh.shrinks.workOwned ho) hsl
      · cases hst
    · cases hst
  | quarantine i id fault last syncFault stat =>
    simp only [System.workStep] at hst
    split at hst
    · next w hg =>
      obtain ⟨-, hs⟩ := Option.ite_none_right_eq_some.mp hst
      have ho := h.works i w hg
      rcases hq : s.quarantineInternalTrash w.job.trashPath id fault last syncFault stat with
        ⟨res, t⟩
      rw [hq] at hs
      rw [ho.trash_eq] at hq
      obtain ⟨hsh, hd⟩ := quarantineInternalTrash_sheds hq
      have ht := hsh.owned h
      have ho' := hsh.shrinks.workOwned ho
      cases res <;> obtain ⟨⟩ := hs
      · refine ht.putWork ⟨ho'.key_mem, ho'.trash_eq, ho'.row, fun _ _ => ?_, nofun⟩
        rw [ho.trash_eq]
        exact hd rfl
      · exact ht
      · exact ht.putIdle ho' nofun nofun
    · cases hst
  | defer i att fault =>
    simp only [System.workStep] at hst
    split at hst
    · next w hg =>
      obtain ⟨-, ⟨⟩⟩ := Option.ite_none_right_eq_some.mp hst
      have hj := h.applied fault (h.retry att w.key)
      split_ifs
      · exact hj.endWork i
      · exact hj.putIdle (hj.works i w hg) nofun nofun
    · cases hst
  | complete i fault =>
    simp only [System.workStep] at hst
    split at hst
    · next w hg =>
      have ho := h.works i w hg
      split at hst
      · next q hp =>
        obtain ⟨⟩ := hst
        have hj := h.applied fault (h.completeJob w.key fun row hrw => by
          rw [(ho.row row hrw).2.1]
          exact ho.vacant q hp)
        split_ifs
        · exact hj.endWork i
        · exact hj.putIdle (hj.works i w hg) nofun nofun
      · cases hst
    · cases hst

/-- A step of the sweep keeps the invariant: it never gets as far as a slice. -/
theorem sweepStep (h : s.Owned) {e : SweepEvent} (hst : s.sweepStep c e = some s') : s'.Owned := by
  cases e with
  | visit place =>
    obtain ⟨d, name⟩ := place
    cases name with
    | shared | quarantine => simp [System.sweepStep] at hst
    | trash id =>
      simp only [System.sweepStep] at hst
      cases hn : s.names.get (d, .trash id) with
      | none => simp [hn] at hst
      | some i =>
        simp only [hn] at hst
        split_ifs at hst
        obtain ⟨⟩ := hst
        -- What is seen has a row, so its id was given out.
        obtain ⟨key, row, hr, hpt⟩ := h.sound.bound d id i hn
        obtain ⟨hk, ht⟩ := h.sound.rows key row hr
        have hid : key.id = id := by
          have hsn := congrArg Prod.snd (ht.symm.trans hpt)
          simpa [trashPathForId] using hsn
        have hnw : (s.putSweep s.nextTask (d, .trash id) .visited).Owned :=
          h.putSweep ⟨⟨d, key, hk, by rw [hid]⟩, Or.inl rfl⟩
        exact { hnw with }
  | check i fault =>
    simp only [System.sweepStep] at hst
    split at hst
    · next w hg =>
      obtain ⟨-, ⟨⟩⟩ := Option.ite_none_right_eq_some.mp hst
      have ho := h.sweeps i w hg
      split_ifs with hb
      · exact h.endSweep i
      have hu : ¬ s.ground.Bound w.place := by
        rintro ⟨key, row, hr, hpt⟩
        exact hb (Or.inr (Table.any_iff.mpr ⟨key, row, hr, by simp [hpt]⟩))
      refine h.putSweep ⟨ho.used, Or.inr ⟨rfl, ?_, hu⟩⟩
      obtain ⟨d, key, -, hpl⟩ := ho.used
      show s.names.get w.place = none
      rw [hpl] at hu ⊢
      cases hn : s.names.get (d, .trash key.id) with
      | none => rfl
      | some j => exact absurd (h.sound.bound d key.id j hn) hu
    · cases hst
  | capture i fault =>
    simp only [System.sweepStep] at hst
    split at hst
    · next w hg =>
      obtain ⟨hp, hs⟩ := Option.ite_none_right_eq_some.mp hst
      have hvc : s.names.get w.place = none := by
        rcases (h.sweeps i w hg).phase with hvs | ⟨-, hv, -⟩
        · rw [hp] at hvs; cases hvs
        · exact hv
      rw [hvc] at hs
      obtain ⟨⟩ := hs
      exact h.endSweep i
    · cases hst
  | slice i ev =>
    simp only [System.sweepStep] at hst
    split at hst
    · next w hg =>
      rcases (h.sweeps i w hg).phase with hp | ⟨hp, -⟩ <;> simp [hp] at hst
    · cases hst
  | skip i =>
    obtain ⟨w, -, rfl⟩ := Option.map_eq_some_iff.mp hst
    exact h.endSweep i

/-- Recovery changes rows in place, and the tasks are gone. -/
theorem restart (h : s.Owned) {now : ℤ} (hs : s.restart c now = some s') : s'.Owned := by
  unfold System.restart at hs
  cases ho : recoverOperations c.limits now s.operations with
  | error e => simp [ho] at hs
  | ok operations =>
    rw [ho] at hs
    obtain ⟨⟩ := hs
    have hsm : ∀ row : PurgeRow Place, SameRow row (row.recover now) := by
      intro row
      unfold PurgeRow.recover
      split_ifs with hc
      · refine ⟨rfl, rfl, rfl, rfl, ?_⟩
        obtain hc | ⟨hc, -⟩ := hc <;> simp [hc]
      · exact ⟨rfl, rfl, rfl, rfl, Iff.rfl⟩
    have hj : ({ s with jobs := recoverPurgeJobs now s.jobs } : System).Owned := by
      refine h.of_rows_kept (fun key row' hr => ?_) fun key row hr => ?_
      · rw [recoverPurgeJobs_get] at hr
        obtain ⟨row, hg, rfl⟩ := Option.map_eq_some_iff.mp hr
        exact ⟨row, hg, hsm row⟩
      · exact ⟨_, by rw [recoverPurgeJobs_get, hr]; rfl, hsm row⟩
    have he : ∀ {ρ : Type} {n : ℕ} {r : ρ}, (Table.empty : Table ℕ ρ).get n ≠ some r := by
      intro ρ n r
      exact nofun
    exact ⟨hj.sound, hj.located, fun _ _ ht => absurd ht he,
      fun _ _ hr => absurd hr he, fun _ _ hw => absurd hw he,
      fun _ _ hw => absurd hw he, fun _ _ _ _ ht => absurd ht he,
      fun _ _ _ _ hr => absurd hr he, fun _ _ _ _ ht => absurd ht he⟩

/-- A new entry at a shared name touches neither the trash nor another object. -/
theorem create (h : s.Owned) {place : Place} {i : FileIdentity} {stat : Stat} {children : ℕ}
    (hsp : s.create place i stat children = some s') : s'.Owned := by
  obtain ⟨d, name⟩ := place
  cases name with
  | trash | quarantine => simp [System.create] at hsp
  | shared name =>
    obtain ⟨⟨hf, -⟩, hs⟩ := Option.ite_none_right_eq_some.mp hsp
    obtain ⟨⟩ := hs
    refine h.of_shrinks ⟨rfl, rfl, fun d' id => Or.inr ?_⟩ rfl rfl rfl rfl ?_
    · show (s.names.put (d, .shared name) i).get (d', .trash id) = _
      rw [Table.get_put, if_neg (by simp)]
      rfl
    intro itn hi
    obtain ⟨hm, hne⟩ := List.mem_filter.mp hi
    have ho : itn.1 ≠ i := by simpa using hne
    have hst : ∀ p, s.names.get p = some itn.1 →
        (s.names.put (d, .shared name) i).get p = some itn.1 := by
      intro p hp
      refine Table.get_put_of_ne hp ?_
      rintro rfl
      rw [hf] at hp
      cases hp
    cases h.located itn hm with
    | purged hp => exact .purged (List.mem_filter.mpr ⟨hp, by simpa using ho⟩)
    | target hp => exact .target (hst _ hp)
    | quarantine d id hp => exact .quarantine d id (hst _ hp)
    | trash d id hp => exact .trash d id (hst _ hp)

/-! ## Steps of a DELETE -/

/-- A key with a new id is the key of no row and no task, and its trash names are free. -/
theorem recordIntent (h : s.Owned) {intents : List (FileIdentity × Place)}
    (hf : ∀ k ∈ s.usedKeys, k.id ≠ key.id) (hj : ∀ k, k ≠ key → jobs.get k = s.jobs.get k)
    (hrw : ∀ row, jobs.get key = some row → row.trashPath = trashPathForId row.targetPath key.id)
    (hl : ∀ itn ∈ intents, Located s.names s.purged itn.1 itn.2) :
    ({ s with jobs := jobs, usedKeys := key :: s.usedKeys, intents := intents } : System).Owned := by
  have hne : ∀ {k}, k ∈ s.usedKeys → k ≠ key := fun hk heq => hf _ hk (by rw [heq])
  have hm : ∀ {k}, k ∈ s.usedKeys → k ∈ key :: s.usedKeys := List.mem_cons_of_mem _
  have hpr : ∀ {k tgt trash}, k ∈ s.usedKeys → s.ground.Prepared k tgt trash →
      (⟨s.names, jobs, key :: s.usedKeys⟩ : Ground).Prepared k tgt trash := by
    rintro k tgt trash hk ⟨row, hg, hrs⟩
    exact ⟨row, (hj k (hne hk)).trans hg, hrs⟩
  refine { h with sound := ⟨?_, ?_, ?_⟩, located := hl, deletes := ?_, reconcilers := ?_,
                  works := ?_, sweeps := ?_ }
  · intro k hk k' hk' hid
    rcases List.mem_cons.mp hk with hn | hold <;>
      rcases List.mem_cons.mp hk' with hn' | ho'
    · exact hn.trans hn'.symm
    · exact absurd (hid.symm.trans (by rw [hn])) (hf k' ho')
    · exact absurd (hid.trans (by rw [hn'])) (hf k hold)
    · exact h.sound.key_eq k hold k' ho' hid
  · intro k row hg
    by_cases hk : k = key
    · subst hk
      exact ⟨List.mem_cons_self, hrw row hg⟩
    · obtain ⟨hu, htr⟩ := h.sound.rows k row ((hj k hk).symm.trans hg)
      exact ⟨hm hu, htr⟩
  · intro d id i hi
    obtain ⟨k, row, hg, hpt⟩ := h.sound.bound d id i hi
    exact ⟨k, row, (hj k (hne (h.sound.rows k row hg).1)).trans hg, hpt⟩
  · intro n t ht
    have ho := h.deletes n t ht
    exact ⟨hm ho.key_mem, fun row hg => ho.target_eq row ((hj _ (hne ho.key_mem)).symm.trans hg),
      fun hp => hpr ho.key_mem (ho.prepared hp), ho.vacant, ho.unclear⟩
  · intro n r hr
    have ho := h.reconcilers n r hr
    exact ⟨hm ho.key_mem, ho.trash_eq, hpr ho.key_mem ho.prepared, ho.vacant⟩
  · intro n w hw
    have ho := h.works n w hw
    exact ⟨hm ho.key_mem, ho.trash_eq,
      fun row hg => ho.row row ((hj _ (hne ho.key_mem)).symm.trans hg), ho.vacant,
      fun e hp => ⟨(ho.entry e hp).identity_eq, (ho.entry e hp).revision_eq,
        (ho.entry e hp).place⟩⟩
  · intro n w hw
    have ho := h.sweeps n w hw
    obtain ⟨d, k, hk, hpl⟩ := ho.used
    refine ⟨⟨d, k, hm hk, hpl⟩, ho.phase.imp_right fun ⟨hp, hv, hb⟩ => ⟨hp, hv, ?_⟩⟩
    rintro ⟨k', row, hg, hpt⟩
    by_cases hk' : k' = key
    · -- The new path has a new id, the path of the sweep an old one.
      subst hk'
      have hs := congrArg Prod.snd ((hrw row hg).symm.trans (hpt.trans hpl))
      exact hf k hk (by simpa [trashPathForId] using hs.symm)
    · exact hb ⟨k', row, (hj k' hk').symm.trans hg, hpt⟩

end System.Owned

/-- Under a new key `prepare_purge_job` stores the proposed row or nothing. -/
theorem preparePurgeJob_cases {lim : PurgeLimits} {jobs : PurgeJobs Place} {key : PurgeJobKey}
    (row : PurgeRow Place) (hn : jobs.get key = none) :
    preparePurgeJob lim jobs key row = (.inserted, jobs.put key row) ∨
      ((preparePurgeJob lim jobs key row).1 ≠ .inserted ∧
        (preparePurgeJob lim jobs key row).2 = jobs) := by
  unfold preparePurgeJob
  rw [hn]
  split_ifs
  · exact Or.inr ⟨nofun, rfl⟩
  · exact Or.inr ⟨nofun, rfl⟩
  · exact Or.inl rfl

namespace System.Owned

variable {c : Config} {s s' : System}

theorem prepare (h : s.Owned) {tgt : Place} {want : FileIdentity} {expectedStat : Stat}
    {key : PurgeJobKey} {op : OperationKey} {l : Uuid} {now : ℤ}
    {fault : Option Fault} (hfr : ∀ k ∈ s.usedKeys, k.id ≠ key.id) :
    (s.prepare c tgt want expectedStat key op l now fault).Owned := by
  have hne : ∀ {k}, k ∈ s.usedKeys → k ≠ key := fun hk heq => hfr _ hk (by rw [heq])
  have hn : s.jobs.get key = none := by
    cases hg : s.jobs.get key with
    | none => rfl
    | some row => exact absurd rfl (hne (h.sound.rows key row hg).1)
  have hl : ∀ itn ∈ (if s.names.get tgt = some want then
      (want, tgt) :: s.intents else s.intents),
      Located s.names s.purged itn.1 itn.2 := by
    intro itn hm
    split_ifs at hm with hth
    · rcases List.mem_cons.mp hm with rfl | hm
      · exact .target hth
      · exact h.located itn hm
    · exact h.located itn hm
  -- Whether the row was stored or not, the intent is noted and the key is used up.
  have hrc : ∀ jobs, (∀ k, k ≠ key → jobs.get k = s.jobs.get k) → (∀ row, jobs.get key = some row →
        row.trashPath = trashPathForId row.targetPath key.id) → ({ s with
          jobs := jobs
          usedKeys := key :: s.usedKeys
          intents := if s.names.get tgt = some want then (want, tgt) :: s.intents
            else s.intents } : System).Owned :=
    fun jobs hj hrw => h.recordIntent hfr hj hrw hl
  have hkp := hrc s.jobs (fun _ _ => rfl) fun row hrw => by
    rw [hn] at hrw
    cases hrw
  unfold System.prepare
  dsimp only
  set row := PurgeRow.prepared tgt (trashPathForId tgt key.id) want
    expectedStat.isDirectory now
  rcases preparePurgeJob_cases row hn with hi | ⟨hrs, hj⟩
  · rw [hi]
    have hs : (s.jobs.put key row).get key = some row := by rw [Table.get_put, if_pos rfl]
    have hp := hrc (s.jobs.put key row) (fun k hk => by rw [Table.get_put, if_neg hk])
      (fun row' hg => by
        obtain rfl : row = row' := Option.some.inj (hs.symm.trans hg)
        rfl)
    unfold Purge.applied
    by_cases hf : fault = none
    · subst hf
      refine hp.setDelete ⟨List.mem_cons_self, ?_, fun _ => ⟨row, hs, rfl, rfl, rfl⟩,
        fun _ => ?_, nofun⟩ ?_ ?_
      · intro row' hg
        obtain rfl : row = row' := Option.some.inj (hs.symm.trans hg)
        rfl
      · show s.names.get (tgt.1, .trash key.id) = none
        cases hnm : s.names.get (tgt.1, .trash key.id) with
        | none => rfl
        | some i =>
          -- An occupant would have a row, whose id was given out before.
          obtain ⟨k, r, hr, hpt⟩ := h.sound.bound _ _ i hnm
          obtain ⟨hk, htr⟩ := h.sound.rows k r hr
          have hsn := congrArg Prod.snd (htr.symm.trans hpt)
          exact absurd (by simpa [trashPathForId] using hsn) (hfr k hk)
      · exact fun m t ht hk => absurd hk (hne (h.deletes m t ht).key_mem)
      · exact fun m r hr => hne (h.reconcilers m r hr).key_mem
    · rw [if_neg (fun ha => hf ha.2)]
      by_cases hfl : fault = some .fails
      · simp only [hfl, if_true]
        exact hkp
      · simp only [hfl, if_false]
        exact hp
  · rw [if_neg (fun ha => hrs ha.1), hj]
    unfold Purge.applied
    rw [ite_self]
    exact hkp

variable {t : DeleteTask}

/-- The checked rename of a started DELETE. -/
theorem rename (h : s.Owned) {i : ℕ} {cf : Bool} {fault : Option Fault} {stat : Stat}
    (hg : s.deletes.get i = some t) (hs : t.phase = .started) :
    (s.moveToTrash i t cf fault stat).Owned := by
  have ho := h.deletes i t hg
  have hpr := ho.prepared (by rw [hs]; decide)
  have hv := ho.vacant (Or.inr (Or.inl hs))
  have hf : (s.putDelete i t .renameFailed).Owned :=
    h.putDelete hg ⟨ho.key_mem, ho.target_eq, fun _ => hpr, by simp, fun _ => Or.inl hv⟩
  unfold System.moveToTrash
  by_cases hc : cf ∨ s.names.get t.target ≠ some t.expected ∨
      s.stat t.expected ≠ t.expectedStat
  · rw [if_pos hc]
    exact h.putDelete hg ⟨ho.key_mem, ho.target_eq, fun _ => hpr, fun _ => hv, by simp⟩
  rw [if_neg hc]
  have ht : s.names.get t.target = some t.expected := by
    by_contra hne
    exact hc (Or.inr (Or.inl hne))
  cases hr : s.renameNoreplace t.target t.trash stat with
  | error errno => rcases fault with _ | (_ | _) <;> exact hf
  | ok s' =>
    have hm : ∀ phase, phase = .renamed ∨ phase = .renameFailed →
        (s'.putDelete i t phase).Owned := by
      intro phase hph
      obtain ⟨j, stat', hsr, hfr, rfl⟩ := renameNoreplace_ok hr
      obtain rfl : j = t.expected := Option.some.inj (hsr.symm.trans ht)
      refine h.moveToTrash hg hs hph ?_ ?_ ?_
      · rw [Table.get_put, if_pos rfl]
      · intro p hp
        rw [Table.get_put, if_neg hp, Table.get_erase]
        by_cases hpt : p = t.target
        · rw [if_pos hpt]; exact Or.inl rfl
        · rw [if_neg hpt]; exact Or.inr rfl
      · intro itn hi
        exact (h.located itn hi).rename hsr hfr (Or.inr ⟨t.target.1, t.key.id, rfl⟩)
    rcases fault with _ | (_ | _)
    · exact hm .renamed (Or.inl rfl)
    · exact hf
    · exact hm .renameFailed (Or.inr rfl)

/-- The row of a DELETE, once its task has ended. -/
theorem released_endDelete (h : s.Owned) {i : ℕ} (hg : s.deletes.get i = some t) :
    Released (s.endDelete i) t.key := by
  constructor
  · intro n t' ht' hk
    obtain ⟨hni, ht'⟩ := Table.get_of_get_erase ht'
    exact absurd (h.deletes_apart n i t' t ht' hg hk) hni
  · exact fun n r hr => (h.apart i n t r hg hr).symm

/-- The intent of a DELETE that moved nothing can go. -/
theorem removeIntent (h : s.Owned) {i : ℕ} (fault : Option Fault) (hg : s.deletes.get i = some t)
    (hp : t.phase = .notMoved) :
    (({ s with jobs := Purge.applied fault s.jobs (removePurgeJob s.jobs t.key).2 } :
      System).endDelete i).Owned := by
  have ho := h.deletes i t hg
  obtain ⟨row, hr, -, -, ht⟩ := ho.prepared (by rw [hp]; decide)
  have he := h.endDelete i
  refine he.applied (s := s.endDelete i) fault (he.erase (h.released_endDelete hg) ?_)
  intro row' hr'
  obtain rfl : row = row' := Option.some.inj (hr.symm.trans hr')
  rw [ht]
  exact ho.vacant (Or.inr (Or.inr hp))

/-- The row of a moved object becomes ready, once the task no longer needs it prepared. -/
theorem markJobReady (h : s.Owned) {key : PurgeJobKey} {now : ℤ} {rev : Digest}
    (hf : Released s key) :
    ({ s with jobs := (markPurgeJobReady now s.jobs key rev).2 } : System).Owned := by
  unfold markPurgeJobReady
  cases hg : s.jobs.get key with
  | none => exact h
  | some row =>
    dsimp only
    by_cases hs : row.state = .prepared
    · rw [if_pos hs]
      exact h.markReady hf hg hs rfl rfl
    · rw [if_neg hs]
      exact h

/-- A step of a DELETE keeps the invariant. -/
theorem deleteStep (h : s.Owned) {e : DeleteEvent} (hst : s.deleteStep c e = some s') :
    s'.Owned := by
  cases e with
  | prepare tgt want expectedStat key op l now fault =>
    obtain ⟨d, name⟩ := tgt
    cases name with
    | trash | quarantine => simp [System.deleteStep] at hst
    | shared name =>
      obtain ⟨⟨-, -, hf⟩, hs⟩ := Option.ite_none_right_eq_some.mp hst
      obtain ⟨⟩ := hs
      exact h.prepare hf
  | markCommitStarted i now fault =>
    simp only [System.deleteStep] at hst
    split at hst
    · next t hg =>
      obtain ⟨hp, ⟨⟩⟩ := Option.ite_none_right_eq_some.mp hst
      have ho := h.deletes i t hg
      split_ifs
      · have hpt : (s.putDelete i t .started).Owned := h.putDelete hg
          ⟨ho.key_mem, ho.target_eq, fun _ => ho.prepared (by rw [hp]; decide),
            fun _ => ho.vacant (Or.inl hp), by simp⟩
        exact { hpt with }
      · exact { h.endDelete i with }
    · cases hst
  | rename i cf fault stat =>
    simp only [System.deleteStep] at hst
    split at hst
    · next t hg =>
      obtain ⟨hp, ⟨⟩⟩ := Option.ite_none_right_eq_some.mp hst
      exact h.rename hg hp
    · cases hst
  | classify i fault =>
    simp only [System.deleteStep] at hst
    split at hst
    · next t hg =>
      obtain ⟨hp, ⟨⟩⟩ := Option.ite_none_right_eq_some.mp hst
      have ho := h.deletes i t hg
      split_ifs with hsy
      · refine h.putDelete hg ⟨ho.key_mem, ho.target_eq,
          fun _ => ho.prepared (by rw [hp]; decide), fun _ => ?_, by simp⟩
        exact (ho.unclear hp).resolve_right hsy.2.2
      · exact h.endDelete i
    · cases hst
  | verify i fault =>
    simp only [System.deleteStep] at hst
    split at hst
    · next t hg =>
      obtain ⟨hp, ⟨⟩⟩ := Option.ite_none_right_eq_some.mp hst
      have ho := h.deletes i t hg
      split_ifs
      · exact h.putDelete hg ⟨ho.key_mem, ho.target_eq,
          fun _ => ho.prepared (by rw [hp]; decide), by simp, by simp⟩
      · exact h.endDelete i
    · cases hst
  | markReady i now fault =>
    simp only [System.deleteStep] at hst
    split at hst
    · next t hg =>
      have ho := h.deletes i t hg
      split at hst
      · next rev hp =>
        obtain ⟨⟩ := hst
        -- The task lets go of the row before the row changes.
        have hpt : (s.putDelete i t .ready).Owned := h.putDelete hg
          ⟨ho.key_mem, ho.target_eq, by simp, by simp, by simp⟩
        have hfr : Released (s.putDelete i t .ready) t.key := by
          refine ⟨fun n t' ht' hk => ?_, fun n r hr => (h.apart i n t r hg hr).symm⟩
          rcases Table.get_put_cases ht' with ⟨rfl, rfl⟩ | ⟨hni, hold⟩
          · rfl
          · exact absurd (h.deletes_apart n i t' t hold hg hk) hni
        have he := h.endDelete i
        split_ifs
        · exact hpt.applied (s := s.putDelete i t .ready) fault (hpt.markJobReady hfr)
        · exact he.applied (s := s.endDelete i) fault (he.markJobReady (h.released_endDelete hg))
      · cases hst
    · cases hst
  | removeIntent i fault =>
    simp only [System.deleteStep] at hst
    split at hst
    · next t hg =>
      obtain ⟨hp, ⟨⟩⟩ := Option.ite_none_right_eq_some.mp hst
      exact h.removeIntent fault hg hp
    · cases hst
  | complete i now out fault =>
    simp only [System.deleteStep] at hst
    split at hst
    · next t hg =>
      obtain ⟨-, hs⟩ := Option.ite_none_right_eq_some.mp hst
      split at hs <;> obtain ⟨⟩ := hs
      · exact { h.endDelete i with }
      · exact h.endDelete i
    · cases hst

end System.Owned

/-! ## Runs -/

variable {c : Config}

theorem System.Owned.step {e : Event} (h : s.Owned) (hs : s.step c e = some s') : s'.Owned := by
  cases e with
  | delete e => exact h.deleteStep hs
  | reconcile e => exact (h.reconcileStep hs).1
  | work e => exact h.workStep hs
  | sweep e => exact h.sweepStep hs
  | restart now => exact h.restart hs
  | create place inode stat children => exact h.create hs

/-- The invariant holds in every reachable state. -/
theorem reachable_owned {operations : Operations} {stat : FileIdentity → Stat}
    (hs : (machine c operations stat).Reachable (fun _ _ => True) s) : s.Owned := by
  have he : ∀ {κ ρ : Type} [DecidableEq κ] {k : κ} {r : ρ},
      (Table.empty : Table κ ρ).get k ≠ some r := by
    intro κ ρ _ k r
    exact nofun
  refine hs.invariant ?_ fun s e s' _ hi _ hst => hi.step hst
  exact ⟨⟨nofun, fun _ _ hr => absurd hr he, fun _ _ _ hi => absurd hi he⟩, nofun,
    fun _ _ ht => absurd ht he, fun _ _ hr => absurd hr he,
    fun _ _ hw => absurd hw he, fun _ _ hw => absurd hw he,
    fun _ _ _ _ ht => absurd ht he, fun _ _ _ _ hr => absurd hr he,
    fun _ _ _ _ ht => absurd ht he⟩

/-! ## Starting to delete -/

/-- The work removes what is below its trash path, or the entry itself. -/
def PurgeWork.Deleting (w : PurgeWork) : Prop :=
  ∃ e, w.phase = .slicing e ∧ (e.phase = .deleting ∨ e.phase = .emptied)

theorem works_of_renameNoreplace (h : s.renameNoreplace source destination stat = .ok s') :
    s'.works = s.works := by
  obtain ⟨_, _, -, -, rfl⟩ := renameNoreplace_ok h
  rfl

theorem Sheds.works_eq (h : Sheds s s') : s'.works = s.works := by
  obtain ⟨_, _, _, _, rfl⟩ := h.eq
  rfl

theorem works_moveToTrash {i : ℕ} {t : DeleteTask} {cf : Bool} :
    (s.moveToTrash i t cf fault stat).works = s.works := by
  unfold System.moveToTrash
  split_ifs
  · rfl
  split
  · rfl
  · rfl
  · next s' hr => exact (works_of_renameNoreplace hr : s'.works = s.works)
  · next s' hr => exact (works_of_renameNoreplace hr : s'.works = s.works)

theorem works_prepare {tgt : Place} {want : FileIdentity} {expectedStat : Stat}
    {key : PurgeJobKey} {op : OperationKey} {l : Uuid} {now : ℤ} :
    (s.prepare c tgt want expectedStat key op l now fault).works = s.works := by
  unfold System.prepare
  dsimp only
  split_ifs <;> rfl

/-- No step of a DELETE touches the purge work. -/
theorem works_deleteStep {e : DeleteEvent} (h : s.deleteStep c e = some s') :
    s'.works = s.works := by
  cases e <;> simp only [System.deleteStep] at h <;> (repeat' split at h) <;> cases h <;>
    first
      | rfl
      | exact works_prepare
      | exact works_moveToTrash

theorem works_reconcileStep {e : ReconcileEvent} (hs : s.Owned) (h : s.reconcileStep e = some s') :
    s'.works = s.works := by
  cases e with
  | quarantine i id fault last syncFault stat =>
    simp only [System.reconcileStep] at h
    split at h
    · next r hg =>
      obtain ⟨-, h⟩ := Option.ite_none_right_eq_some.mp h
      rcases hq : s.quarantineInternalTrash r.trash id fault last syncFault stat with ⟨res, t⟩
      rw [hq] at h
      rw [(hs.reconcilers i r hg).trash_eq] at hq
      have hw := (quarantineInternalTrash_sheds hq).1.works_eq
      cases res <;> obtain ⟨⟩ := h <;> exact hw
    · cases h
  | acquire | inspect | remove =>
    simp only [System.reconcileStep] at h
    (repeat' split at h) <;> cases h <;> rfl

theorem works_sweepStep {e : SweepEvent} (hs : s.Owned) (h : s.sweepStep c e = some s') :
    s'.works = s.works := by
  cases e with
  | slice i ev =>
    simp only [System.sweepStep] at h
    split at h
    · next w hg =>
      rcases (hs.sweeps i w hg).phase with hp | ⟨hp, -⟩ <;> simp [hp] at h
    · cases h
  | visit | check | capture =>
    simp only [System.sweepStep] at h; (repeat' split at h) <;> cases h <;> rfl
  | skip i =>
    obtain ⟨w, -, rfl⟩ := Option.map_eq_some_iff.mp h
    rfl

variable {e : TrashEntry}

/-- A slice that was not deleting before starts only after its checks. -/
theorem TrashEntry.sliceStep_starts {e' : TrashEntry} {ev : SliceEvent}
    (h : e.sliceStep c s ev = some (.pending e', s'))
    (hbf : ¬ (e.phase = .deleting ∨ e.phase = .emptied))
    (haf : e'.phase = .deleting ∨ e'.phase = .emptied) :
    e.phase = .captured ∧ s.names.get e.place = some e.identity ∧
      c.purgeRevision (s.replacementTargetIdentity e.identity) = e.trashRevision := by
  have ha : e'.phase ≠ .ambiguous := by rcases haf with h | h <;> rw [h] <;> decide
  cases ev with
  | begin sf of rf syncFault =>
    obtain ⟨hp, hr⟩ := Option.ite_none_right_eq_some.mp h
    have hb := (Prod.mk.inj (Option.some.inj hr)).1
    have hs := begin_settles (e := e) (s := s) (c := c) sf of rf syncFault
    rw [hb] at hs
    cases hs with
    | stays phase hph => exact ⟨hp, begin_starts ha hb⟩
  | removeChild | finishChildren =>
    obtain ⟨⟨hp, -⟩, -⟩ := Option.ite_none_right_eq_some.mp h
    exact absurd (Or.inl hp) hbf
  | isolate id fault last syncFault stat =>
    obtain ⟨hp, -⟩ := Option.ite_none_right_eq_some.mp h
    exact absurd (Or.inr hp) hbf
  | unlink vf fault syncFault =>
    obtain ⟨-, hr⟩ := Option.ite_none_right_eq_some.mp h
    have hf := congrArg Prod.fst (Option.some.inj hr)
    unfold TrashEntry.unlink at hf
    split_ifs at hf
    · exact absurd (congrArg TrashEntry.phase (SliceResult.pending.inj hf)).symm ha
    · exact absurd (congrArg TrashEntry.phase (SliceResult.pending.inj hf)).symm ha
    · cases syncFault <;> cases hf
  | quarantine id fault last syncFault stat =>
    obtain ⟨hp, hr⟩ := Option.ite_none_right_eq_some.mp h
    -- The only pending result is another try with the same entry.
    have hsm : e' = e := by
      have hf := congrArg Prod.fst (Option.some.inj hr)
      unfold TrashEntry.quarantine at hf
      cases last <;> cases syncFault <;> dsimp only at hf <;> (repeat' split at hf) <;>
        cases hf <;> rfl
    rw [hsm] at ha
    exact absurd hp ha

/-- The occupant of the trash path is the object of the job, as it was when the job became
    ready. -/
def System.OccupantMatches (c : Config) (s : System) (key : PurgeJobKey) : Prop :=
  ∃ row, s.jobs.get key = some row ∧ s.names.get row.trashPath = some row.sourceIdentity ∧
    row.trashRevision = some (c.purgeRevision (s.replacementTargetIdentity row.sourceIdentity))

theorem System.openPurgeWork_phase {row : PurgeRow Place} {fault : Bool}
    (h : s.openPurgeWork c row fault = .slicing e) : e.phase = .captured := by
  unfold System.openPurgeWork at h
  (repeat' split at h) <;> cases h
  rfl

/-- The slice that starts to delete has found the object of its job. -/
theorem System.Owned.slice_matching {i : ℕ} {w : PurgeWork} {e' : TrashEntry} {ev : SliceEvent}
    (h : s.Owned) (hg : s.works.get i = some w) (hph : w.phase = .slicing e)
    (hs : e.sliceStep c s ev = some (.pending e', s'))
    (hb : ¬ (e.phase = .deleting ∨ e.phase = .emptied))
    (ha : e'.phase = .deleting ∨ e'.phase = .emptied) : s.OccupantMatches c w.key := by
  have ho := h.works i w hg
  have he := ho.entry e hph
  obtain ⟨hc, hn, hr⟩ := TrashEntry.sliceStep_starts hs hb ha
  have hpl : e.place = w.job.trashPath :=
    TrashEntry.place_eq he (by rw [hc]; decide) (by rw [hc]; decide)
  rw [hpl, ho.trash_eq] at hn
  -- The path is occupied, so it has a row, and that is the row of this work.
  obtain ⟨key, row, hrw, hp⟩ := h.sound.bound _ _ _ hn
  obtain ⟨hk, ht⟩ := h.sound.rows key row hrw
  have hid : key.id = w.key.id := by
    have hsn := congrArg Prod.snd (ht.symm.trans hp)
    simpa [trashPathForId] using hsn
  obtain rfl : key = w.key := h.sound.key_eq key hk w.key ho.key_mem hid
  obtain ⟨-, -, hi, hrv⟩ := ho.row row hrw
  refine ⟨row, hrw, ?_, ?_⟩
  · rw [hp, hi, ← he.identity_eq]
    exact hn
  · rw [hrv, hi, ← he.identity_eq, hr, he.revision_eq]

/-- Whatever step makes a work start to delete: the occupant matches its job. -/
theorem System.Owned.starts_matching {ev : Event} {i : ℕ} {w : PurgeWork} (h : s.Owned)
    (hst : s.step c ev = some s') (hg : s'.works.get i = some w) (ha : w.Deleting)
    (hb : ∀ w₀, s.works.get i = some w₀ → ¬ w₀.Deleting) : s.OccupantMatches c w.key := by
  have hold : s.works.get i ≠ some w := fun hw => hb w hw ha
  have hsm : s'.works ≠ s.works := fun hwr => hold (hwr ▸ hg)
  -- Only a work whose phase is set can start, and only with a slice that deletes.
  have hpt : ∀ {t : System} {j w₁ phase}, t.works = s.works →
      (t.putWork j w₁ phase).works.get i = some w → i = j ∧ w = { w₁ with phase := phase } := by
    intro t j w₁ phase hwr hw
    rcases Table.get_put_cases hw with hn | ⟨-, hk⟩
    · exact hn
    · exact absurd (hwr ▸ hk) hold
  have hen : ∀ {t : System} {j}, t.works = s.works → (t.endWork j).works.get i ≠ some w := by
    intro t j hwr hw
    exact hold (hwr ▸ (Table.get_of_get_erase hw).2)
  have hi : ∀ {t : System} {j w₁ phase}, t.works = s.works →
      (∀ e, phase = .slicing e → e.phase = .captured) →
      (t.putWork j w₁ phase).works.get i ≠ some w := by
    intro t j w₁ phase hwr hph hw
    obtain ⟨e, he, hp⟩ := ha
    rw [(hpt hwr hw).2] at he
    rw [hph e he] at hp
    simp at hp
  cases ev with
  | delete e => exact absurd (works_deleteStep hst) hsm
  | reconcile e => exact absurd (works_reconcileStep h hst) hsm
  | sweep e => exact absurd (works_sweepStep h hst) hsm
  | restart now =>
    simp only [System.step, System.restart] at hst
    split at hst <;> cases hst
    cases hg
  | create place inode stat children =>
    simp only [System.step, System.create] at hst
    (repeat' split at hst) <;> cases hst
    exact absurd rfl hsm
  | work e =>
    cases e with
    | claim key now fault =>
      simp only [System.step, System.workStep] at hst
      split at hst
      · next job jobs hc =>
        obtain ⟨⟩ := hst
        split_ifs at hg hsm
        · have hn : (s.putWork s.nextTask ⟨key, job, .opening⟩ .opening).works.get i = some w :=
            hg
          exact absurd hn (hi rfl nofun)
        · exact absurd rfl hsm
      · cases hst
    | capture j stf fault =>
      simp only [System.step, System.workStep] at hst
      (repeat' split at hst) <;> cases hst
      · exact absurd rfl hsm
      · exact absurd hg (hi rfl fun e he => System.openPurgeWork_phase he)
      · exact absurd hg (hen rfl)
      · exact absurd hg (hen rfl)
    | slice j ev =>
      simp only [System.step, System.workStep] at hst
      split at hst
      · next w₀ hwo =>
        have ho := h.works j w₀ hwo
        split at hst
        · next ent hph =>
          obtain ⟨⟨r, t⟩, hr, rfl⟩ := Option.map_eq_some_iff.mp hst
          have hsh := (TrashEntry.sliceStep_sheds ho.trash_eq (ho.entry ent hph) hr).1
          obtain ⟨rfl, rfl⟩ := hpt hsh.works_eq hg
          obtain ⟨e', he', hp'⟩ := ha
          cases r with
          | pending e₁ =>
            obtain rfl := WorkPhase.slicing.inj he'
            have hm : s.OccupantMatches c w₀.key := h.slice_matching hwo hph hr
              (fun hp => hb w₀ hwo ⟨ent, hph, hp⟩) hp'
            exact hm
          | complete | invalidData | error => cases he'
        · cases hst
      · cases hst
    | quarantine j id fault last syncFault stat =>
      simp only [System.step, System.workStep] at hst
      split at hst
      · next w₀ hwo =>
        obtain ⟨-, hs⟩ := Option.ite_none_right_eq_some.mp hst
        rcases hq : s.quarantineInternalTrash w₀.job.trashPath id fault last syncFault stat with
          ⟨res, t⟩
        rw [hq] at hs
        rw [(h.works j w₀ hwo).trash_eq] at hq
        have hwr := (quarantineInternalTrash_sheds hq).1.works_eq
        cases res <;> obtain ⟨⟩ := hs
        · exact absurd hg (hi hwr nofun)
        · exact absurd hwr hsm
        · exact absurd hg (hi hwr nofun)
      · cases hst
    | defer | complete =>
      simp only [System.step, System.workStep] at hst
      (repeat' split at hst) <;> cases hst
      · exact absurd hg (hen rfl)
      · exact absurd hg (hi rfl nofun)

/-! ## Main theorem -/

/-- **Deleting through trash.** Whatever fails and wherever the process stops, in every run:
    * an object whose deletion was recorded is at its target, at a quarantine name, or at a
      trash path that a purge row is about, until purge work removes it;
    * a step of a reconciliation leaves every shared name as it is;
    * when purge work starts to delete, the occupant of the trash path has the identity and
      the revision that are stored for the job. -/
theorem deleted_object_recoverable (c : Config) (operations : Operations)
    (stat : FileIdentity → Stat) :
    (∀ s, (machine c operations stat).Reachable (fun _ _ => True) s →
      ∀ object target, (object, target) ∈ s.intents →
        object ∈ s.purged ∨ s.names.get target = some object ∨
        (∃ d id, s.names.get (d, .quarantine id) = some object) ∨
        ∃ d id key row, s.names.get (d, .trash id) = some object ∧
          s.jobs.get key = some row ∧ row.trashPath = (d, .trash id)) ∧
    (∀ s e s', (machine c operations stat).Reachable (fun _ _ => True) s →
      s.step c (.reconcile e) = some s' →
      ∀ d name, s'.names.get (d, .shared name) = s.names.get (d, .shared name)) ∧
    (∀ s e s' i w, (machine c operations stat).Reachable (fun _ _ => True) s →
      s.step c e = some s' → s'.works.get i = some w → w.Deleting →
      (∀ w₀, s.works.get i = some w₀ → ¬ w₀.Deleting) → s.OccupantMatches c w.key) := by
  refine ⟨?_, ?_, ?_⟩
  · intro s hs object target hi
    have ho := reachable_owned hs
    cases ho.located (object, target) hi with
    | purged hp => exact Or.inl hp
    | target hp => exact Or.inr (Or.inl hp)
    | quarantine d id hp => exact Or.inr (Or.inr (Or.inl ⟨d, id, hp⟩))
    | trash d id hp =>
      obtain ⟨key, row, hr, hpt⟩ := ho.sound.bound d id object hp
      exact Or.inr (Or.inr (Or.inr ⟨d, id, key, row, hp, hr, hpt⟩))
  · intro s e s' hs hst
    exact ((reachable_owned hs).reconcileStep hst).2
  · intro s e s' i w hs hst hg ha hb
    exact (reachable_owned hs).starts_matching hst hg ha hb

/-! ## Tasks keep out of each other's way -/

/-- No two DELETEs or reconciliations have one job, and none has a job that purge work holds unless
    the DELETE has handed it on. The sweep for trash without a row, whose look at the rows and whose
    deletion are separate steps, never gets to delete anything. -/
theorem tasks_apart (c : Config) (operations : Operations) (stat : FileIdentity → Stat) :
    (∀ s, (machine c operations stat).Reachable (fun _ _ => True) s →
      (∀ n m t t', s.deletes.get n = some t → s.deletes.get m = some t' → n ≠ m → t.key ≠ t'.key) ∧
      (∀ n m r r', s.reconcilers.get n = some r → s.reconcilers.get m = some r' → n ≠ m →
        r.key ≠ r'.key) ∧
      (∀ n m t r, s.deletes.get n = some t → s.reconcilers.get m = some r → t.key ≠ r.key) ∧
      (∀ n m t w, s.deletes.get n = some t → t.phase ≠ .ready → s.works.get m = some w →
        t.key ≠ w.key) ∧
      ∀ n m r w, s.reconcilers.get n = some r → s.works.get m = some w → r.key ≠ w.key) ∧
    ∀ s, (machine c operations stat).Reachable (fun _ _ => True) s →
      ∀ n w entry, s.sweeps.get n = some w → w.phase ≠ .purging entry := by
  refine ⟨fun s hs => ?_, fun s hs n w entry hg => ?_⟩
  · have ho := reachable_owned hs
    -- The row of a job in work is not prepared any more.
    have hw : ∀ {m w k target trash}, s.works.get m = some w → s.ground.Prepared k target trash →
        k ≠ w.key := by
      rintro m w _ _ _ hg ⟨row, hr, hp, -⟩ rfl
      exact ((ho.works m w hg).row row hr).1 hp
    exact ⟨fun n m t t' ht ht' hne hk => hne (ho.deletes_apart n m t t' ht ht' hk),
      fun n m r r' hr hr' hne hk => hne (ho.reconcilers_apart n m r r' hr hr' hk), ho.apart,
      fun n m t w ht hp hg => hw hg ((ho.deletes n t ht).prepared hp),
      fun n m r w hr hg => hw hg (ho.reconcilers n r hr).prepared⟩
  · rcases ((reachable_owned hs).sweeps n w hg).phase with hp | ⟨hp, -⟩ <;> simp [hp]

end DufsRam.Purge
