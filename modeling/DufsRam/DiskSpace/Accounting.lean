import DufsRam.DiskSpace.Tracker

/-!
# The reserved bytes cover the bytes still to be written

Two invariants of the tracker over every interleaving of its users. The first is about
the accounting alone and assumes nothing of the callers: what is recorded for a device
is what its live reservations track. The second is about one device whose free space is
lowered only by holders that stay within their grants: the free space then covers the
protected minimum and everything granted and not yet written, although every grant was
decided on a probe taken without the lock.

Results:
* `reachable_accounted`: the accounting in every reachable state.
* `reserved_space_protected`: both invariants.
-/

namespace DufsRam.DiskSpace

/-! ## Totals over the live reservations -/

/-- The bytes of `device` a holder's reservation tracks. -/
def Holder.tracked (h : Holder) (device : Device) : ℕ :=
  if h.reservation.device = device then h.reservation.remaining + h.reservation.pendingRelease
  else 0

/-- The bytes of `device` a holder was granted and has not written. -/
def Holder.unwritten (h : Holder) (device : Device) : ℕ :=
  if h.reservation.device = device then h.granted - h.written else 0

namespace System

/-- The sum over live reservations of `remaining + pending_release`. -/
def tracked (s : System) (device : Device) : ℕ := s.holders.total fun _ h => h.tracked device

/-- The total granted-but-unwritten bytes. -/
def unwritten (s : System) (device : Device) : ℕ := s.holders.total fun _ h => h.unwritten device

end System

@[simp] theorem Holder.tracked_consume (h : Holder) (b : ℕ) (due : Bool) (d : Device) :
    Holder.tracked { h with reservation := h.reservation.consume b, flushDue := due } d =
      h.tracked d := by
  by_cases hd : h.reservation.device = d
  · simp only [Holder.tracked, DiskSpaceReservation.consume, hd, if_true]
    omega
  · simp only [Holder.tracked, DiskSpaceReservation.consume, hd, if_false]

/-! ## The accounting -/

/-- The accounting agrees with the live reservations. -/
structure Accounted (s : System) : Prop where
  /-- A new id is not in use. -/
  fresh : ∀ i h, s.holders.get i = some h → i < s.nextId
  reserved_eq : ∀ d, s.state.reservedOn d = s.tracked d
  reserved_lt : ∀ d, s.state.reservedOn d < 2 ^ 64
  not_saturated : s.saturated = false

namespace Accounted

variable {s : System}

/-- Steps that touch neither the accounting nor the reservations. -/
theorem of_eq (hs : Accounted s) {s' : System} (hst : s'.state = s.state)
    (hh : s'.holders = s.holders) (hid : s.nextId ≤ s'.nextId)
    (hsa : s'.saturated = s.saturated) : Accounted s' where
  fresh i h hg := lt_of_lt_of_le (hs.fresh i h (hh ▸ hg)) hid
  reserved_eq d := by
    rw [System.tracked, hst, hh]
    exact hs.reserved_eq d
  reserved_lt d := by rw [hst]; exact hs.reserved_lt d
  not_saturated := hsa.trans hs.not_saturated

variable {h : Holder}

/-- A holder changes while its tracked bytes stay the same. -/
theorem putHolder (hs : Accounted s) {i : ℕ} {h' : Holder} (hg : s.holders.get i = some h)
    (ht : ∀ d, h'.tracked d = h.tracked d) : Accounted (s.putHolder i h') where
  fresh := Table.forall_get_put (hs.fresh i h hg) hs.fresh
  reserved_eq d := by
    have hp := Table.total_put s.holders i h' fun _ h => h.tracked d
    rw [hg, Option.elim_some, ht d] at hp
    have hold := hs.reserved_eq d
    simp only [System.tracked, System.putHolder] at hold ⊢
    omega
  reserved_lt := hs.reserved_lt
  not_saturated := hs.not_saturated

/-- Bytes are released that the holders no longer track. -/
theorem release (hs : Accounted s) {d : Device} {b : ℕ} {t : Table ℕ Holder}
    (hf : ∀ k g, t.get k = some g → k < s.nextId)
    (ht : ∀ d', t.total (fun _ h => h.tracked d') + (if d' = d then b else 0) = s.tracked d') :
    Accounted { s.release d b with holders := t } where
  fresh := hf
  reserved_eq d' := by
    have hold := hs.reserved_eq d'
    have hd' := ht d'
    show (s.state.release d b).reservedOn d' = t.total _
    rw [DiskSpaceState.reservedOn_release]
    split_ifs at hd' ⊢ with hd
    · subst hd
      omega
    · omega
  reserved_lt d' := by
    have hlt := hs.reserved_lt d'
    show (s.state.release d b).reservedOn d' < 2 ^ 64
    rw [DiskSpaceState.reservedOn_release]
    split_ifs with hd
    · subst hd; omega
    · exact hlt
  not_saturated := by
    have hd := ht d
    rw [if_pos rfl, ← hs.reserved_eq d] at hd
    simp [System.release, hs.not_saturated, Nat.le_of_add_left_le hd.le]

theorem flush (hs : Accounted s) {i : ℕ} (hg : s.holders.get i = some h) :
    Accounted (s.flush i h) := by
  refine hs.release (Table.forall_get_put (hs.fresh i h hg) hs.fresh) fun d => ?_
  have hp := Table.total_put s.holders i
    { h with reservation := { h.reservation with pendingRelease := 0 }, flushDue := false }
    fun _ h => h.tracked d
  rw [hg, Option.elim_some] at hp
  change (s.holders.put i _).total _ + _ = s.holders.total _
  simp only [Holder.tracked, eq_comm (a := d)] at hp ⊢
  split_ifs at hp ⊢ <;> omega

theorem drop (hs : Accounted s) {i : ℕ} (hg : s.holders.get i = some h) :
    Accounted (s.drop i h) := by
  refine hs.release (fun k g hk => hs.fresh k g (Table.get_of_get_erase hk).2) fun d => ?_
  have he := Table.total_erase s.holders i fun _ h => h.tracked d
  rw [hg, Option.elim_some] at he
  simp only [Holder.tracked, System.tracked, eq_comm (a := d)] at he ⊢
  exact he

theorem get_nextId (hs : Accounted s) : s.holders.get s.nextId = none := by
  cases hg : s.holders.get s.nextId with
  | none => rfl
  | some h => exact absurd (hs.fresh _ _ hg) (lt_irrefl _)

theorem grant (hs : Accounted s) {d : Device} {j avail req minimumFree : ℕ}
    {st : DiskSpaceState} {r : DiskSpaceReservation}
    (h : s.state.reserveLocked d avail req minimumFree = some (st, r)) :
    Accounted (s.grant j st r) := by
  obtain ⟨rfl, hlt, -, hr, -⟩ := DiskSpaceState.reserveLocked_spec h
  refine ⟨Table.forall_get_put (Nat.lt_succ_self _) fun k g hk => ?_, ?_, ?_, hs.not_saturated⟩
  · exact Nat.lt_succ_of_lt (hs.fresh k g hk)
  · intro d'
    have hp := Table.total_put s.holders s.nextId ⟨⟨d, req, 0⟩, false, req, 0⟩
      fun _ h => h.tracked d'
    have hold := hs.reserved_eq d'
    rw [hs.get_nextId, Option.elim_none, Nat.add_zero] at hp
    show st.reservedOn d' = (s.holders.put s.nextId ⟨⟨d, req, 0⟩, false, req, 0⟩).total _
    rw [hr d', hp, hold]
    by_cases hd : d' = d
    · subst hd; simp [Holder.tracked, System.tracked]
    · have hd' : d ≠ d' := fun heq => hd heq.symm
      simp [Holder.tracked, System.tracked, hd, hd']
  · intro d'
    have hold := hs.reserved_lt d'
    show st.reservedOn d' < 2 ^ 64
    rw [hr d']
    split_ifs with hd
    · subst hd; omega
    · exact hold

end Accounted

variable {minimumFree : ℕ} {s s' : System} {d : Device}

theorem accounted_step {e : Event} (hc : StepCase minimumFree s e s') (hs : Accounted s) :
    Accounted s' := by
  cases hc with
  | reserve d req => exact hs.of_eq rfl rfl (Nat.le_succ _) rfl
  | availability hg | reject hg => exact (hs.flush hg).of_eq rfl rfl (Nat.le_succ _) rfl
  | observe | probe | finish | restart | external => exact hs.of_eq rfl rfl le_rfl rfl
  | grant hg hph hr => exact hs.grant hr
  | @write i h b free hg =>
    have hp : Accounted (s.putHolder i { h with written := h.written + b }) :=
      hs.putHolder hg fun d => rfl
    exact hp.of_eq rfl rfl le_rfl rfl
  | consume b hg => exact hs.putHolder hg fun d => Holder.tracked_consume _ _ _ d
  | flush hg => exact hs.flush hg
  | drop hg => exact hs.drop hg

/-- The accounting holds in every run, whatever the callers do. -/
theorem reachable_accounted {free : Device → ℕ} {ok : System → Event → Prop}
    (h : (machine minimumFree free).Reachable ok s) : Accounted s := by
  induction h with
  | init => exact ⟨nofun, fun d => rfl, fun d => Nat.two_pow_pos 64, rfl⟩
  | step hs hok hst ih => exact accounted_step (step_cases hst) ih

/-! ## The protected space of one device -/

/-- What is assumed of the users of `device`: a holder writes at most its grant, a write
    lowers the free space by at most its length, bytes are consumed after they are written,
    nothing else lowers the free space, and the revision does not come round between the
    reading of the revision and the decision. Other devices are free to misbehave. -/
def Honest (device : Device) (s : System) : Event → Prop
  | .write i bytes free => ∀ h, s.holders.get i = some h → h.reservation.device = device →
      h.written + bytes ≤ h.granted ∧ s.free device ≤ free + bytes
  | .consume i bytes => ∀ h, s.holders.get i = some h → h.reservation.device = device →
      h.granted + bytes ≤ h.reservation.remaining + h.written
  | .external d free => d = device → s.free device ≤ free
  | .lock j => ∀ p revision bumps available, s.probers.get j = some p → p.device = device →
      p.phase = .probed revision bumps available → s.bumps device < bumps + 2 ^ 64
  | _ => True

/-- A snapshot is at most as old as its revision. While the revision has not changed, the
    space it found covers what is free now, up to writes that are still reserved. -/
def Snapshot (s : System) (d : Device) : Phase → Prop
  | .start => True
  | .observed revision bumps => revision = bumps % 2 ^ 64 ∧ bumps ≤ s.bumps d
  | .probed revision bumps available => revision = bumps % 2 ^ 64 ∧ bumps ≤ s.bumps d ∧
      (bumps = s.bumps d → available + s.unwritten d ≤ s.free d + s.state.reservedOn d)

/-- The invariant of an honestly used device. -/
structure Protected (minimumFree : ℕ) (d : Device) (s : System) : Prop where
  within : ∀ i h, s.holders.get i = some h → h.reservation.device = d →
    h.written ≤ h.granted ∧ h.granted ≤ h.reservation.remaining + h.written
  revision_eq : s.state.revisionOf d = s.bumps d % 2 ^ 64
  snapshot : ∀ j p, s.probers.get j = some p → p.device = d → Snapshot s d p.phase
  covered : d ∈ s.grantedOn → minimumFree + s.unwritten d ≤ s.free d

theorem countBump_apply (bumps : Device → ℕ) (d d' : Device) (b : ℕ) :
    countBump bumps d b d' = if d' = d ∧ b ≠ 0 then bumps d + 1 else bumps d' := by
  unfold countBump
  by_cases hb : b = 0
  · simp [hb]
  · by_cases hd : d' = d
    · subst hd; simp [hb]
    · simp [hb, hd]

theorem le_countBump (bumps : Device → ℕ) (d d' : Device) (b : ℕ) :
    bumps d' ≤ countBump bumps d b d' := by
  rw [countBump_apply]
  split_ifs with h
  · rw [h.1]; omega
  · exact le_rfl

/-- The wrapping revision follows the ghost counter through a change. -/
theorem revision_countBump {st : DiskSpaceState} {bumps : Device → ℕ}
    (hr : st.revisionOf d = bumps d % 2 ^ 64) (d' : Device) (b : ℕ) :
    (if d = d' ∧ b ≠ 0 then (st.revisionOf d' + 1) % 2 ^ 64 else st.revisionOf d) =
      countBump bumps d' b d % 2 ^ 64 := by
  rw [countBump_apply]
  split_ifs with h
  · obtain ⟨rfl, -⟩ := h
    omega
  · exact hr

/-- A snapshot stays good when the step either changes the revision or leaves as much room
    between the free space and the unwritten bytes. -/
theorem Snapshot.mono {phase : Phase} (h : Snapshot s d phase) (hb : s.bumps d ≤ s'.bumps d)
    (hs : s'.bumps d = s.bumps d → s.free d + s.state.reservedOn d + s'.unwritten d ≤
      s'.free d + s'.state.reservedOn d + s.unwritten d) : Snapshot s' d phase := by
  cases phase with
  | start => trivial
  | observed rev bumps => exact ⟨h.1, h.2.trans hb⟩
  | probed rev bumps avail =>
    obtain ⟨hr, hle, hold⟩ := h
    refine ⟨hr, hle.trans hb, ?_⟩
    intro heq
    have hsm : s'.bumps d = s.bumps d := by omega
    omega

namespace Protected

variable {minimumFree : ℕ} {d : Device} {s : System}

/-- Consumed bytes were written, so what is unwritten is still reserved. -/
theorem unwritten_le (hs : Protected minimumFree d s) (ha : Accounted s) :
    s.unwritten d ≤ s.state.reservedOn d := by
  rw [ha.reserved_eq]
  refine Table.total_le_total fun i h hg => ?_
  by_cases hd : h.reservation.device = d
  · have := hs.within i h hg hd
    simp only [Holder.unwritten, Holder.tracked, hd, if_true]
    omega
  · simp only [Holder.unwritten, hd, if_false]
    exact Nat.zero_le _

/-- Steps of probers. -/
theorem of_probers (hs : Protected minimumFree d s) {s' : System} (hst : s'.state = s.state)
    (hh : s'.holders = s.holders) (hf : s'.free = s.free) (hb : s'.bumps = s.bumps)
    (hgr : s'.grantedOn = s.grantedOn)
    (hp : ∀ j p, s'.probers.get j = some p → p.device = d →
      s.probers.get j = some p ∨ Snapshot s d p.phase) : Protected minimumFree d s' := by
  have hu : s'.unwritten d = s.unwritten d := by
    rw [System.unwritten, hh]
    rfl
  refine ⟨?_, ?_, ?_, ?_⟩
  · rw [hh]; exact hs.within
  · rw [hst, hb]; exact hs.revision_eq
  · intro j p hg hd
    have hold : Snapshot s d p.phase := by
      obtain hg | hn := hp j p hg hd
      · exact hs.snapshot j p hg hd
      · exact hn
    refine hold.mono (le_of_eq (by rw [hb])) fun _ => ?_
    rw [hf, hst, hu]
  · rw [hgr, hf, hu]; exact hs.covered

/-- Steps that leave the probers alone. -/
theorem of_holders (hs : Protected minimumFree d s) {s' : System} (hp : s'.probers = s.probers)
    (hwi : ∀ i h, s'.holders.get i = some h → h.reservation.device = d →
      h.written ≤ h.granted ∧ h.granted ≤ h.reservation.remaining + h.written)
    (hr : s'.state.revisionOf d = s'.bumps d % 2 ^ 64) (hb : s.bumps d ≤ s'.bumps d)
    (hsl : s'.bumps d = s.bumps d → s.free d + s.state.reservedOn d + s'.unwritten d ≤
      s'.free d + s'.state.reservedOn d + s.unwritten d)
    (hc : d ∈ s'.grantedOn → minimumFree + s'.unwritten d ≤ s'.free d) :
    Protected minimumFree d s' where
  within := hwi
  revision_eq := hr
  snapshot j p hg hd := (hs.snapshot j p (hp ▸ hg) hd).mono hb hsl
  covered := hc

variable {i : ℕ} {h : Holder}

/-- The holders' bounds after one of them has changed. -/
theorem within_put (hs : Protected minimumFree d s) {h' : Holder} (hn : h'.reservation.device = d →
      h'.written ≤ h'.granted ∧ h'.granted ≤ h'.reservation.remaining + h'.written) :
    ∀ k g, (s.holders.put i h').get k = some g → g.reservation.device = d →
      g.written ≤ g.granted ∧ g.granted ≤ g.reservation.remaining + g.written :=
  Table.forall_get_put hn hs.within

/-- Bytes are released that are not granted to a holder, or only to one that has gone. -/
theorem release (hs : Protected minimumFree d s) {dev : Device} {b : ℕ} {t : Table ℕ Holder}
    (hwi : ∀ i h, t.get i = some h → h.reservation.device = d →
      h.written ≤ h.granted ∧ h.granted ≤ h.reservation.remaining + h.written)
    (hu : t.total (fun _ h => h.unwritten d) ≤ s.unwritten d) :
    Protected minimumFree d { s.release dev b with holders := t } := by
  refine hs.of_holders rfl hwi ?_ (le_countBump _ _ _ _) (fun hsm => ?_) fun hd => ?_
  · show (s.state.release dev b).revisionOf d = _
    rw [DiskSpaceState.revisionOf_release]
    exact revision_countBump hs.revision_eq _ _
  · -- With the revision unchanged, nothing was released on this device.
    have hsm : countBump s.bumps dev b d = s.bumps d := hsm
    show _ + t.total _ ≤ s.free d + (s.state.release dev b).reservedOn d + _
    rw [countBump_apply] at hsm
    rw [DiskSpaceState.reservedOn_release]
    split_ifs at hsm with hb
    · rw [← hb.1] at hsm; omega
    split_ifs with hd
    · have hz : b = 0 := by
        by_contra hne
        exact hb ⟨hd, hne⟩
      rw [hz, ← hd]
      omega
    · omega
  · have hc := hs.covered hd
    show minimumFree + t.total _ ≤ s.free d
    omega

theorem flush (hs : Protected minimumFree d s) (hg : s.holders.get i = some h) :
    Protected minimumFree d (s.flush i h) := by
  have hp := Table.total_put s.holders i
    { h with reservation := { h.reservation with pendingRelease := 0 }, flushDue := false }
    fun _ h => h.unwritten d
  rw [hg, Option.elim_some] at hp
  exact hs.release (hs.within_put fun hd => hs.within i h hg hd) (Nat.add_right_cancel hp).le

theorem drop (hs : Protected minimumFree d s) (h : Holder) :
    Protected minimumFree d (s.drop i h) := by
  have he := Table.total_erase s.holders i fun _ h => h.unwritten d
  exact hs.release (fun k g hk => hs.within k g (Table.get_of_get_erase hk).2)
    (Nat.le_of_add_right_le he.le)

theorem consume (hs : Protected minimumFree d s) {b : ℕ} {due : Bool}
    (hg : s.holders.get i = some h) (hok : Honest d s (.consume i b)) :
    Protected minimumFree d (s.putHolder i
      { h with reservation := h.reservation.consume b, flushDue := due }) := by
  have hu : (s.putHolder i { h with
      reservation := h.reservation.consume b, flushDue := due }).unwritten d =
      s.unwritten d := by
    have hp := Table.total_put s.holders i
      { h with reservation := h.reservation.consume b, flushDue := due }
      fun _ h => h.unwritten d
    rw [hg, Option.elim_some] at hp
    exact Nat.add_right_cancel hp
  refine hs.of_holders rfl (hs.within_put ?_) hs.revision_eq le_rfl ?_ ?_
  · intro hd
    have hc := hok h hg hd
    have hwi := hs.within i h hg hd
    simp only [DiskSpaceReservation.consume]
    omega
  · intro _
    rw [hu]
    exact le_rfl
  · rw [hu]
    exact hs.covered

theorem write (hs : Protected minimumFree d s) {b free : ℕ} (hg : s.holders.get i = some h)
    (hok : Honest d s (.write i b free)) :
    Protected minimumFree d { s.putHolder i { h with written := h.written + b } with
      free := Function.update s.free h.reservation.device free } := by
  set s' : System := { s.putHolder i { h with written := h.written + b } with
    free := Function.update s.free h.reservation.device free }
  -- What the write takes from the free space it takes from the unwritten bytes too.
  have hr : s.free d + s'.unwritten d ≤ s'.free d + s.unwritten d := by
    have hp : s'.unwritten d + h.unwritten d =
        s.unwritten d + Holder.unwritten { h with written := h.written + b } d := by
      have hp := Table.total_put s.holders i { h with written := h.written + b }
        fun _ h => h.unwritten d
      rw [hg, Option.elim_some] at hp
      exact hp
    show _ ≤ Function.update s.free h.reservation.device free d + _
    by_cases hd : h.reservation.device = d
    · have hh := hok h hg hd
      simp only [Holder.unwritten, hd, if_true] at hp
      rw [hd, Function.update_self]
      omega
    · simp only [Holder.unwritten, hd, if_false] at hp
      rw [Function.update_of_ne (fun heq => hd heq.symm)]
      omega
  refine hs.of_holders rfl (hs.within_put ?_) hs.revision_eq le_rfl ?_ ?_
  · intro hd
    have hh := hok h hg hd
    have hwi := hs.within i h hg hd
    refine ⟨hh.1, ?_⟩
    show h.granted ≤ h.reservation.remaining + (h.written + b)
    omega
  · intro _
    show _ ≤ s'.free d + s.state.reservedOn d + _
    omega
  · intro hd
    have hc := hs.covered hd
    omega

theorem external (hs : Protected minimumFree d s) {d' : Device} {free : ℕ}
    (hok : Honest d s (.external d' free)) :
    Protected minimumFree d { s with free := Function.update s.free d' free } := by
  have hf : s.free d ≤ Function.update s.free d' free d := by
    by_cases hd : d = d'
    · subst hd
      rw [Function.update_self]
      exact hok rfl
    · rw [Function.update_of_ne hd]
  refine hs.of_holders rfl hs.within hs.revision_eq le_rfl ?_ ?_
  · intro _
    show _ ≤ Function.update s.free d' free d + s.state.reservedOn d + s.unwritten d
    have : System.unwritten { s with free := Function.update s.free d' free } d = s.unwritten d := rfl
    omega
  · intro hd
    exact (hs.covered hd).trans hf

/-- A grant decided on a snapshot whose revision still stands finds the room it needs. -/
theorem grant (hs : Protected minimumFree d s) (ha : Accounted s)
    {j bumps avail req : ℕ} {p : Prober} {st : DiskSpaceState}
    {r : DiskSpaceReservation} (hg : s.probers.get j = some p)
    (hp : p.phase = .probed (s.state.revisionOf p.device) bumps avail)
    (hrs : s.state.reserveLocked p.device avail req minimumFree = some (st, r))
    (hok : Honest d s (.lock j)) : Protected minimumFree d (s.grant j st r) := by
  obtain ⟨rfl, -, hf, hrv, hr⟩ := DiskSpaceState.reserveLocked_spec hrs
  set holder : Holder := ⟨⟨p.device, req, 0⟩, false, req, 0⟩ with hh
  have hu : (s.grant j st ⟨p.device, req, 0⟩).unwritten d = s.unwritten d + holder.unwritten d := by
    have hpt := Table.total_put s.holders s.nextId holder fun _ h => h.unwritten d
    rw [ha.get_nextId, Option.elim_none] at hpt
    exact hpt
  have hsh : holder.unwritten d = if p.device = d then req else 0 := rfl
  have hrm : d ∈ p.device :: s.grantedOn →
      minimumFree + s.unwritten d + holder.unwritten d ≤ s.free d := by
    intro hgr
    by_cases hd : p.device = d
    · have hsn := hs.snapshot j p hg hd
      have hw := hok p _ bumps avail hg hd hp
      rw [hp] at hsn
      obtain ⟨hre, hle, hsl⟩ := hsn
      rw [hd, hs.revision_eq] at hre
      -- Equal revisions without a wrap are equal counts.
      have hsm : bumps = s.bumps d := by omega
      rw [hd] at hf
      rw [hsh, if_pos hd]
      omega
    · have hm : d ∈ s.grantedOn := by
        obtain heq | hm := List.mem_cons.mp hgr
        · exact absurd heq.symm hd
        · exact hm
      rw [hsh, if_neg hd]
      exact hs.covered hm
  have hb := le_countBump s.bumps p.device d req
  refine ⟨hs.within_put fun _ => ⟨Nat.zero_le _, le_rfl⟩, ?_, ?_, ?_⟩
  · show st.revisionOf d = countBump s.bumps p.device req d % 2 ^ 64
    rw [hr]
    exact revision_countBump hs.revision_eq _ _
  · intro k q hk hd
    refine (hs.snapshot k q (Table.get_of_get_erase hk).2 hd).mono hb ?_
    intro _
    rw [hu, hsh]
    show _ ≤ s.free d + st.reservedOn d + _
    rw [hrv d]
    by_cases hpd : p.device = d
    · simp only [hpd, if_true]; omega
    · have hdp : ¬ d = p.device := fun heq => hpd heq.symm
      simp only [hpd, hdp, if_false]; omega
  · intro hgr
    have := hrm hgr
    show _ ≤ s.free d
    omega

end Protected

theorem protected_step {e : Event} (hc : StepCase minimumFree s e s') (hok : Honest d s e)
    (ha : Accounted s) (hs : Protected minimumFree d s) : Protected minimumFree d s' := by
  -- A prober stored under an id leaves the others as they are.
  have hpt : ∀ (t : System) (j : ℕ) (q : Prober), (q.device = d → Snapshot t d q.phase) →
      ∀ k p, (t.probers.put j q).get k = some p → p.device = d →
        t.probers.get k = some p ∨ Snapshot t d p.phase := by
    intro t j q hq
    exact Table.forall_get_put (fun hd => .inr (hq hd)) fun k p hk _ => .inl hk
  cases hc with
  | reserve | restart => exact hs.of_probers rfl rfl rfl rfl rfl (hpt s _ _ fun _ => trivial)
  | availability hg =>
    exact (hs.flush hg).of_probers rfl rfl rfl rfl rfl (hpt _ _ _ fun _ => trivial)
  | reject hg =>
    exact (hs.flush hg).of_probers rfl rfl rfl rfl rfl fun k p hk _ => .inl hk
  | observe hg =>
    refine hs.of_probers rfl rfl rfl rfl rfl (hpt s _ _ fun hd => ?_)
    cases hd
    exact ⟨hs.revision_eq, le_rfl⟩
  | @probe j rev bumps p hg hp =>
    refine hs.of_probers rfl rfl rfl rfl rfl (hpt s _ _ fun hd => ?_)
    have hsn := hs.snapshot j p hg hd
    rw [hp] at hsn
    refine ⟨hsn.1, hsn.2, fun _ => ?_⟩
    have hu := hs.unwritten_le ha
    rw [hd]
    omega
  | finish out =>
    exact hs.of_probers rfl rfl rfl rfl rfl fun k p hk _ => .inl (Table.get_of_get_erase hk).2
  | grant hg hp hr => exact hs.grant ha hg hp hr hok
  | write b free hg => exact hs.write hg hok
  | consume b hg => exact hs.consume hg hok
  | flush hg => exact hs.flush hg
  | drop => exact hs.drop _
  | external d' free => exact hs.external hok

theorem reachable_protected {free : Device → ℕ}
    (h : (machine minimumFree free).Reachable (Honest d) s) : Protected minimumFree d s := by
  induction h with
  | init => exact ⟨nofun, rfl, nofun, nofun⟩
  | step hs hok hst ih =>
    exact protected_step (step_cases hst) hok (reachable_accounted hs) ih

/-- **Disk-space reservations.** In every run, the bytes recorded for a device are those its
    live reservations track and no release takes more than is recorded. In every run in which
    the users of a device are honest, its free space covers the protected minimum and all that
    was granted and not written, from the first grant on. -/
theorem reserved_space_protected (minimumFree : ℕ) (free : Device → ℕ) (d : Device) :
    (∀ s, (machine minimumFree free).Reachable (fun _ _ => True) s →
      s.state.reservedOn d = s.tracked d ∧ s.saturated = false) ∧
    (∀ s, (machine minimumFree free).Reachable (Honest d) s → d ∈ s.grantedOn →
      minimumFree + s.unwritten d ≤ s.free d) := by
  refine ⟨?_, ?_⟩
  · intro s hs
    have ha := reachable_accounted hs
    exact ⟨ha.reserved_eq d, ha.not_saturated⟩
  · intro s hs hg
    exact (reachable_protected hs).covered hg

end DufsRam.DiskSpace
