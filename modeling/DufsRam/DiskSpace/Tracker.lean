import DufsRam.Lib.Machine
import DufsRam.Lib.Table

/-!
# Disk-space reservations

Model of `disk_space.rs`: the process-wide accounting (`DiskSpaceState`), the
reservations that tasks own, and the probes of the free space that reservers and
availability checks take without the lock. Every access to the accounting under its
lock is one step, so that steps of different tasks interleave freely.

Bytes and revisions are `u64` in the source: sums that may overflow go through
`checkedAdd`, and the revision wraps. Every caller passes the same `minimum_free`, the
configured `min_free_space`.

Results:
* `step_cases`: everything one step can do.
* `reservedOn_release`, `reserveLocked_spec`: what the two critical sections do to the
  accounting.
-/

namespace DufsRam.DiskSpace

/-- A device number (`st_dev`). -/
abbrev Device := ℕ

/-! ## The accounting -/

/-- `MAX_CAPACITY_SNAPSHOT_RETRIES` (line 14). -/
def maxCapacitySnapshotRetries : ℕ := 8

/-- `RESERVATION_RELEASE_BATCH_BYTES` (line 20). -/
def reservationReleaseBatchBytes : ℕ := 1024 * 1024

/-- `u64::checked_add`. -/
def checkedAdd (a b : ℕ) : Option ℕ := if a + b < 2 ^ 64 then some (a + b) else none

/-- `DiskSpaceState` (lines 27-31). -/
structure DiskSpaceState where
  reserved : Table Device ℕ
  revisions : Table Device ℕ

namespace DiskSpaceState

/-- `state.reserved.get(&device).copied().unwrap_or_default()`. -/
def reservedOn (st : DiskSpaceState) (device : Device) : ℕ := (st.reserved.get device).getD 0

/-- `state.revisions.get(&device).copied().unwrap_or_default()`. -/
def revisionOf (st : DiskSpaceState) (device : Device) : ℕ := (st.revisions.get device).getD 0

/-- `bump_revision` (lines 229-232). -/
def bumpRevision (st : DiskSpaceState) (device : Device) : DiskSpaceState :=
  { st with revisions := st.revisions.put device ((st.revisionOf device + 1) % 2 ^ 64) }

end DiskSpaceState

/-- `DiskSpaceReservation` (lines 33-38). -/
structure DiskSpaceReservation where
  device : Device
  remaining : ℕ
  pendingRelease : ℕ
deriving DecidableEq

/-- `space_budget_fits` (lines 343-353). -/
def spaceBudgetFits (available alreadyReserved requested minimumFree : ℕ) : Bool :=
  ((checkedAdd minimumFree alreadyReserved).bind fun required =>
    checkedAdd required requested).any fun required => decide (required ≤ available)

namespace DiskSpaceState

/-- `reserve_locked` (lines 87-114). -/
def reserveLocked (st : DiskSpaceState) (device : Device)
    (available requested minimumFree : ℕ) : Option (DiskSpaceState × DiskSpaceReservation) :=
  let reserved := st.reservedOn device
  if spaceBudgetFits available reserved requested minimumFree then
    let st' := { st with reserved := st.reserved.put device (reserved + requested) }
    some (if 0 < requested then st'.bumpRevision device else st, ⟨device, requested, 0⟩)
  else none

/-- `release` (lines 169-189). Subtraction of natural numbers saturates as
    `saturating_sub` does. -/
def release (st : DiskSpaceState) (device : Device) (bytes : ℕ) : DiskSpaceState :=
  if bytes = 0 then st
  else
    match st.reserved.get device with
    | none => st.bumpRevision device
    | some reserved =>
      let rest := reserved - bytes
      let reserved' := if rest = 0 then st.reserved.erase device else st.reserved.put device rest
      { st with reserved := reserved' }.bumpRevision device

/-- The answer of `reserved_space_is_available_on_device` (lines 217-220). -/
def reservedSpaceIsAvailable (st : DiskSpaceState) (device : Device)
    (available minimumFree : ℕ) : Bool :=
  (checkedAdd minimumFree (st.reservedOn device)).any fun required =>
    decide (required ≤ available)

end DiskSpaceState

/-- `consume` (lines 239-250) up to the test whether the batch is full. -/
def DiskSpaceReservation.consume (r : DiskSpaceReservation) (bytes : ℕ) : DiskSpaceReservation :=
  let consumed := min bytes r.remaining
  { r with
    remaining := r.remaining - consumed
    pendingRelease := r.pendingRelease + consumed }

/-- `available_space` (lines 303-315): a report beyond `u64` is an error. -/
def availableSpace (free : ℕ) : Option ℕ := if free < 2 ^ 64 then some free else none

/-! ## Tasks -/

/-- A task that owns a reservation. `flushDue` holds from the test in `consume` that finds
    the batch full to the release. Ghost state: the bytes granted and the bytes written. -/
structure Holder where
  reservation : DiskSpaceReservation
  flushDue : Bool
  granted : ℕ
  written : ℕ
deriving DecidableEq

/-- What a stable snapshot is wanted for. -/
inductive Purpose where
  | reserve (requested : ℕ)
  | availability
deriving DecidableEq

/-- The program points of one round of the snapshot loops (lines 126-147 and 200-221).
    `bumps` is ghost state: the number of revision changes when the revision was read. -/
inductive Phase where
  | start
  | observed (revision bumps : ℕ)
  | probed (revision bumps available : ℕ)
deriving DecidableEq

/-- A running call of `reserve_on_device` or `reserved_space_is_available_on_device`. -/
structure Prober where
  device : Device
  purpose : Purpose
  attempts : ℕ
  phase : Phase
deriving DecidableEq

/-- How a call ended. -/
inductive Outcome where
  | granted (holder : ℕ)
  | insufficient
  | available (answer : Bool)
  /-- `ErrorKind::WouldBlock`: no stable snapshot in `maxCapacitySnapshotRetries` rounds. -/
  | wouldBlock
  /-- An error of the probe, or a file on another filesystem. -/
  | failed
deriving DecidableEq

/-- The tracker, its users and the devices. Ghost state: `bumps` counts the revision changes
    without wrapping, `grantedOn` lists the devices reservations were granted on, and
    `saturated` records a release of more than is reserved. -/
structure System where
  state : DiskSpaceState
  holders : Table ℕ Holder
  probers : Table ℕ Prober
  outcomes : Table ℕ Outcome
  nextId : ℕ
  free : Device → ℕ
  bumps : Device → ℕ
  grantedOn : List Device
  saturated : Bool

/-- One step of a task or of a device. -/
inductive Event where
  | reserve (device : Device) (requested : ℕ)
  /-- `actual` is the device of the file passed in, if `dup` and `fstat` succeed. -/
  | availability (holder : ℕ) (actual : Option Device)
  | observe (prober : ℕ)
  | probe (prober : ℕ)
  | probeFails (prober : ℕ)
  | lock (prober : ℕ)
  /-- A holder writes `bytes` bytes, which leaves `free` bytes on its device. -/
  | write (holder bytes free : ℕ)
  | consume (holder bytes : ℕ)
  | flush (holder : ℕ)
  | drop (holder : ℕ)
  /-- The free space of a device changes through no write of a holder. -/
  | external (device : Device) (free : ℕ)
deriving DecidableEq

/-- The ghost counter after a change of `bytes` reserved bytes. -/
def countBump (bumps : Device → ℕ) (device : Device) (bytes : ℕ) : Device → ℕ :=
  if bytes = 0 then bumps else Function.update bumps device (bumps device + 1)

namespace System

def putHolder (s : System) (i : ℕ) (h : Holder) : System := { s with holders := s.holders.put i h }

def putProber (s : System) (j : ℕ) (p : Prober) : System := { s with probers := s.probers.put j p }

/-- Start a call. -/
def addProber (s : System) (device : Device) (purpose : Purpose) : System :=
  { s.putProber s.nextId ⟨device, purpose, maxCapacitySnapshotRetries, .start⟩ with
    nextId := s.nextId + 1 }

/-- End a call. -/
def finish (s : System) (j : ℕ) (outcome : Outcome) : System :=
  { s with probers := s.probers.erase j, outcomes := s.outcomes.put j outcome }

/-- A call that fails before its first round. -/
def reject (s : System) : System :=
  { s with outcomes := s.outcomes.put s.nextId .failed, nextId := s.nextId + 1 }

/-- `release`, with its two debug assertions recorded in `saturated`. -/
def release (s : System) (device : Device) (bytes : ℕ) : System :=
  { s with
    state := s.state.release device bytes
    bumps := countBump s.bumps device bytes
    saturated := s.saturated || decide (s.state.reservedOn device < bytes) }

/-- `flush_pending_release` (lines 281-284). -/
def flush (s : System) (i : ℕ) (h : Holder) : System :=
  (s.release h.reservation.device h.reservation.pendingRelease).putHolder i
    { h with reservation := { h.reservation with pendingRelease := 0 }, flushDue := false }

/-- `Drop::drop` (lines 287-297). -/
def drop (s : System) (i : ℕ) (h : Holder) : System :=
  let r := h.reservation
  { s.release r.device (r.remaining + r.pendingRelease) with holders := s.holders.erase i }

/-- The round ends with `continue`, and after the last round with `WouldBlock`. -/
def retry (s : System) (j : ℕ) (p : Prober) : System :=
  if p.attempts ≤ 1 then s.finish j .wouldBlock
  else s.putProber j { p with attempts := p.attempts - 1, phase := .start }

/-- The caller receives its reservation. -/
def grant (s : System) (j : ℕ) (st : DiskSpaceState) (r : DiskSpaceReservation) : System :=
  { (s.finish j (.granted s.nextId)).putHolder s.nextId ⟨r, false, r.remaining, 0⟩ with
    state := st
    nextId := s.nextId + 1
    bumps := countBump s.bumps r.device r.remaining
    grantedOn := r.device :: s.grantedOn }

/-- The section under the lock after the probe (lines 139-146 and 210-220). -/
def lock (minimumFree : ℕ) (s : System) (j : ℕ) (p : Prober) (revision available : ℕ) : System :=
  if s.state.revisionOf p.device ≠ revision then s.retry j p
  else
    match p.purpose with
    | .availability =>
      s.finish j (.available (s.state.reservedSpaceIsAvailable p.device available minimumFree))
    | .reserve requested =>
      match s.state.reserveLocked p.device available requested minimumFree with
      | none => s.finish j .insufficient
      | some (st, r) => s.grant j st r

/-- One step. A holder whose batch is full releases it before anything else. -/
def step (minimumFree : ℕ) (s : System) : Event → Option System
  | .reserve device requested => some (s.addProber device (.reserve requested))
  | .availability i actual =>
    match s.holders.get i with
    | some h =>
      if h.flushDue then none
      else if actual = some h.reservation.device then
        some ((s.flush i h).addProber h.reservation.device .availability)
      else some (s.flush i h).reject
    | none => none
  | .observe j =>
    match s.probers.get j with
    | some ⟨device, purpose, attempts, .start⟩ =>
      some (s.putProber j ⟨device, purpose, attempts,
        .observed (s.state.revisionOf device) (s.bumps device)⟩)
    | _ => none
  | .probe j =>
    match s.probers.get j with
    | some ⟨device, purpose, attempts, .observed revision bumps⟩ =>
      match availableSpace (s.free device) with
      | some available =>
        some (s.putProber j ⟨device, purpose, attempts, .probed revision bumps available⟩)
      | none => some (s.finish j .failed)
    | _ => none
  | .probeFails j =>
    match s.probers.get j with
    | some ⟨_, _, _, .observed _ _⟩ => some (s.finish j .failed)
    | _ => none
  | .lock j =>
    match s.probers.get j with
    | some ⟨device, purpose, attempts, .probed revision bumps available⟩ =>
      some (s.lock minimumFree j
        ⟨device, purpose, attempts, .probed revision bumps available⟩ revision available)
    | _ => none
  | .write i bytes free =>
    match s.holders.get i with
    | some h =>
      if h.flushDue then none
      else some { s.putHolder i { h with written := h.written + bytes } with
        free := Function.update s.free h.reservation.device free }
    | none => none
  | .consume i bytes =>
    match s.holders.get i with
    | some h =>
      if h.flushDue then none
      else
        let r := h.reservation.consume bytes
        some (s.putHolder i { h with
          reservation := r
          flushDue := decide (reservationReleaseBatchBytes ≤ r.pendingRelease) })
    | none => none
  | .flush i =>
    match s.holders.get i with
    | some h => if h.flushDue then some (s.flush i h) else none
    | none => none
  | .drop i =>
    match s.holders.get i with
    | some h => if h.flushDue then none else some (s.drop i h)
    | none => none
  | .external device free => some { s with free := Function.update s.free device free }

end System

/-- No reservation yet, on devices with the given free space. -/
def machine (minimumFree : ℕ) (free : Device → ℕ) : Machine System Event where
  init :=
    { state := ⟨.empty, .empty⟩, holders := .empty, probers := .empty, outcomes := .empty,
      nextId := 0, free := free, bumps := fun _ => 0, grantedOn := [], saturated := false }
  step := System.step minimumFree

/-! ## The critical sections -/

theorem spaceBudgetFits_iff {available rsv req free : ℕ} :
    spaceBudgetFits available rsv req free = true ↔
      free + rsv + req < 2 ^ 64 ∧
      free + rsv + req ≤ available := by
  unfold spaceBudgetFits checkedAdd
  by_cases h1 : free + rsv < 2 ^ 64
  · rw [if_pos h1, Option.bind_some]
    split_ifs with h2
    · simp only [Option.any_some, decide_eq_true_eq]
      omega
    · simp only [Option.any_none, Bool.false_eq_true, false_iff]
      omega
  · rw [if_neg h1, Option.bind_none]
    simp only [Option.any_none, Bool.false_eq_true, false_iff]
    omega

namespace DiskSpaceState

@[simp] theorem reserved_bumpRevision (st : DiskSpaceState) (d : Device) :
    (st.bumpRevision d).reserved = st.reserved := rfl

theorem revisionOf_bumpRevision (st : DiskSpaceState) (d d' : Device) :
    (st.bumpRevision d).revisionOf d' =
      if d' = d then (st.revisionOf d + 1) % 2 ^ 64 else st.revisionOf d' := by
  by_cases h : d' = d
  · subst h; simp [bumpRevision, revisionOf]
  · simp [bumpRevision, revisionOf, h]

/-- A release takes the bytes from its own device. -/
theorem reservedOn_release (st : DiskSpaceState) (d d' : Device) (b : ℕ) :
    (st.release d b).reservedOn d' =
      if d' = d then st.reservedOn d - b else st.reservedOn d' := by
  unfold release
  by_cases hb : b = 0
  · by_cases h : d' = d <;> simp [hb, h]
  rw [if_neg hb]
  cases hg : st.reserved.get d with
  | none =>
    by_cases h : d' = d
    · subst h; simp [reservedOn, hg]
    · simp [reservedOn, h]
  | some rsv =>
    by_cases h : d' = d
    · subst h
      by_cases hr : rsv - b = 0 <;> simp [reservedOn, hg, hr]
    · by_cases hr : rsv - b = 0 <;> simp [reservedOn, hr, h]

/-- A release of anything changes the revision of its device, a release of nothing none. -/
theorem revisionOf_release (st : DiskSpaceState) (d d' : Device) (b : ℕ) :
    (st.release d b).revisionOf d' =
      if d' = d ∧ b ≠ 0 then (st.revisionOf d + 1) % 2 ^ 64 else st.revisionOf d' := by
  unfold release
  by_cases hb : b = 0
  · simp [hb]
  rw [if_neg hb]
  cases st.reserved.get d with
  | none => simp [revisionOf_bumpRevision, hb]
  | some rsv =>
    simp only [revisionOf_bumpRevision, hb, ne_eq, not_false_eq_true, and_true]
    rfl

/-- A granted reservation fits the probed space and is added to the accounting. -/
theorem reserveLocked_spec {st st' : DiskSpaceState} {d : Device} {r : DiskSpaceReservation}
    {avail req free : ℕ}
    (h : st.reserveLocked d avail req free = some (st', r)) :
    r = ⟨d, req, 0⟩ ∧
    free + st.reservedOn d + req < 2 ^ 64 ∧
    free + st.reservedOn d + req ≤ avail ∧
    (∀ d', st'.reservedOn d' = st.reservedOn d' + if d' = d then req else 0) ∧
    ∀ d', st'.revisionOf d' =
      if d' = d ∧ req ≠ 0 then (st.revisionOf d + 1) % 2 ^ 64 else st.revisionOf d' := by
  simp only [reserveLocked] at h
  split_ifs at h with hf hp
  · obtain ⟨rfl, rfl⟩ := Prod.mk.inj (Option.some.inj h)
    obtain ⟨hlt, hle⟩ := spaceBudgetFits_iff.mp hf
    refine ⟨rfl, hlt, hle, ?_, ?_⟩
    · intro d'
      by_cases hd : d' = d
      · subst hd; simp [reservedOn]
      · simp [reservedOn, hd]
    · intro d'
      have hne : req ≠ 0 := by omega
      simp only [revisionOf_bumpRevision, hne, ne_eq, not_false_eq_true, and_true]
      rfl
  · obtain ⟨rfl, rfl⟩ := Prod.mk.inj (Option.some.inj h)
    obtain ⟨hlt, hle⟩ := spaceBudgetFits_iff.mp hf
    have hz : req = 0 := by omega
    exact ⟨rfl, hlt, hle, by simp [hz], by simp [hz]⟩

end DiskSpaceState

/-! ## Steps -/

/-- What one step can do. -/
inductive StepCase (minimumFree : ℕ) (s : System) : Event → System → Prop
  | reserve (d : Device) (requested : ℕ) :
      StepCase minimumFree s (.reserve d requested) (s.addProber d (.reserve requested))
  | availability {i : ℕ} {h : Holder} (hget : s.holders.get i = some h) :
      StepCase minimumFree s (.availability i (some h.reservation.device))
        ((s.flush i h).addProber h.reservation.device .availability)
  | reject {i : ℕ} {h : Holder} {actual : Option Device} (hget : s.holders.get i = some h) :
      StepCase minimumFree s (.availability i actual) (s.flush i h).reject
  | observe {j : ℕ} {p : Prober} (hget : s.probers.get j = some p) :
      StepCase minimumFree s (.observe j) (s.putProber j
        { p with phase := .observed (s.state.revisionOf p.device) (s.bumps p.device) })
  | probe {j revision bumps : ℕ} {p : Prober} (hget : s.probers.get j = some p)
      (hphase : p.phase = .observed revision bumps) :
      StepCase minimumFree s (.probe j) (s.putProber j
        { p with phase := .probed revision bumps (s.free p.device) })
  | finish {e : Event} {j : ℕ} (outcome : Outcome) : StepCase minimumFree s e (s.finish j outcome)
  | restart {j : ℕ} {p : Prober} (hget : s.probers.get j = some p) :
      StepCase minimumFree s (.lock j)
        (s.putProber j { p with attempts := p.attempts - 1, phase := .start })
  | grant {j bumps available requested : ℕ} {p : Prober} {st : DiskSpaceState}
      {r : DiskSpaceReservation} (hget : s.probers.get j = some p)
      (hphase : p.phase = .probed (s.state.revisionOf p.device) bumps available)
      (hreserve : s.state.reserveLocked p.device available requested minimumFree = some (st, r)) :
      StepCase minimumFree s (.lock j) (s.grant j st r)
  | write {i : ℕ} {h : Holder} (bytes free : ℕ) (hget : s.holders.get i = some h) :
      StepCase minimumFree s (.write i bytes free)
        { s.putHolder i { h with written := h.written + bytes } with
          free := Function.update s.free h.reservation.device free }
  | consume {i : ℕ} {h : Holder} {due : Bool} (bytes : ℕ) (hget : s.holders.get i = some h) :
      StepCase minimumFree s (.consume i bytes) (s.putHolder i
        { h with reservation := h.reservation.consume bytes, flushDue := due })
  | flush {i : ℕ} {h : Holder} (hget : s.holders.get i = some h) :
      StepCase minimumFree s (.flush i) (s.flush i h)
  | drop {i : ℕ} {h : Holder} (hget : s.holders.get i = some h) :
      StepCase minimumFree s (.drop i) (s.drop i h)
  | external (d : Device) (free : ℕ) :
      StepCase minimumFree s (.external d free)
        { s with free := Function.update s.free d free }

theorem lock_cases {free j rev bumps avail : ℕ} {s : System} {p : Prober}
    (hg : s.probers.get j = some p) (hp : p.phase = .probed rev bumps avail) :
    StepCase free s (.lock j) (s.lock free j p rev avail) := by
  unfold System.lock System.retry
  split_ifs with hr hl
  · exact .finish _
  · exact .restart hg
  -- The revision is the one that was observed.
  have hr := not_not.mp hr
  split
  · exact .finish _
  · split
    · exact .finish _
    · next st r hrs => exact .grant hg (hr ▸ hp) hrs

theorem step_cases {minimumFree : ℕ} {free : Device → ℕ} {s s' : System} {e : Event}
    (h : (machine minimumFree free).step s e = some s') : StepCase minimumFree s e s' := by
  change s.step minimumFree e = some s' at h
  cases e with
  | reserve d req => cases h; exact .reserve d req
  | availability i actual =>
    simp only [System.step] at h
    split at h
    · next hd hg =>
      split_ifs at h with hdu hdv
      · cases h; subst hdv; exact .availability hg
      · cases h; exact .reject hg
    · cases h
  | observe j =>
    simp only [System.step] at h
    split at h
    · next hg => cases h; exact .observe hg
    · cases h
  | probe j =>
    simp only [System.step] at h
    split at h
    · next hg =>
      split at h
      · next avail ha =>
        unfold availableSpace at ha
        split_ifs at ha
        cases ha; cases h
        exact .probe hg rfl
      · cases h; exact .finish _
    · cases h
  | probeFails j =>
    simp only [System.step] at h
    split at h
    · cases h; exact .finish _
    · cases h
  | lock j =>
    simp only [System.step] at h
    split at h
    · next hg => cases h; exact lock_cases hg rfl
    · cases h
  | write i b free =>
    simp only [System.step] at h
    split at h
    · next hg => split_ifs at h; cases h; exact .write b free hg
    · cases h
  | consume i b =>
    simp only [System.step] at h
    split at h
    · next hg => split_ifs at h; cases h; exact .consume b hg
    · cases h
  | flush i =>
    simp only [System.step] at h
    split at h
    · next hg => split_ifs at h; cases h; exact .flush hg
    · cases h
  | drop i =>
    simp only [System.step] at h
    split at h
    · next hg => split_ifs at h; cases h; exact .drop hg
    · cases h
  | external d free => cases h; exact .external d free

end DufsRam.DiskSpace
