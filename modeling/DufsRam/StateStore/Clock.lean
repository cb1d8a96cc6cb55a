import DufsRam.StateStore.Operation

/-!
# The clock of the state store

`StoreClock` (`state_store.rs`, lines 1084-1125) turns readings of the wall clock and of the
monotonic clock into the times that the store works with. It counts whole milliseconds of the
monotonic clock from an anchor, and moves the anchor when the wall clock has run ahead.

An `Instant` is the number of nanoseconds of the monotonic clock. An `i64` is an integer with
the proof that it is in range, so that no value of the model can have wrapped.

Results:
* `StoreClock.observe_eq_ok_iff`: when an observation answers, and with which time.
* `StoreClock.lastMs_observe`: the last answer never goes back.
* `StoreClock.Sound`: the anchor is never behind the monotonic clock.
* `observed_times_monotone`: over every sequence of readings the times never go back and never
  fall behind the monotonic clock.
-/

namespace DufsRam.StateStore

open scoped IntOrder

/-! ## `i64` -/

/-- The range of `i64`. -/
def InI64 (x : ℤ) : Prop :=
  -2 ^ 63 ≤ x ∧ x < 2 ^ 63

-- Decided on natural numbers: the integer comparison with `2 ^ 63` unfolds in unary.
instance (x : ℤ) : Decidable (InI64 x) :=
  decidable_of_iff (x.toNat < 2 ^ 63 ∧ (-x).toNat ≤ 2 ^ 63) (by unfold InI64; omega)

/-- An `i64`. -/
abbrev I64 := { x : ℤ // InI64 x }

/-- A conversion or an operation whose exact result is `x`: `None` out of range. -/
def I64.checked (x : ℤ) : Option I64 :=
  if h : InI64 x then some ⟨x, h⟩ else none

theorem I64.checked_eq_some_iff {x : ℤ} {y : I64} : I64.checked x = some y ↔ y.val = x := by
  unfold I64.checked
  split
  · rw [Option.some.injEq, Subtype.ext_iff]
    exact eq_comm
  next hr =>
  constructor
  · intro h
    cases h
  · intro h
    exact absurd (h ▸ y.property) hr

/-! ## The clock -/

/-- `StoreClock` (`state_store.rs`, lines 1084-1088). -/
structure StoreClock where
  wallAnchorMs : I64
  monotonicAnchor : ℕ
  lastMs : I64
deriving DecidableEq

/-- `StoreClock::new` (`state_store.rs`, lines 1091-1098), with the two readings it takes. -/
def StoreClock.new (wallAnchorMs : I64) (monotonicAnchor : ℕ) : StoreClock :=
  ⟨wallAnchorMs, monotonicAnchor, wallAnchorMs⟩

/-- `Instant::checked_duration_since`, in nanoseconds. -/
def checkedDurationSince (now earlier : ℕ) : Option ℕ :=
  if earlier ≤ now then some (now - earlier) else none

/-- `Duration::as_millis`. -/
def asMillis (duration : ℕ) : ℕ :=
  duration / 10 ^ 6

/-- The time that `observe` counts from the anchor (`state_store.rs`, lines 1105-1113). -/
def StoreClock.candidate (clock : StoreClock) (monotonicNow : ℕ) : Except String I64 :=
  match checkedDurationSince monotonicNow clock.monotonicAnchor with
  | none => .error "The monotonic clock moved backwards"
  | some elapsed =>
    match I64.checked (asMillis elapsed) with
    | none => .error "The monotonic clock cannot be represented in milliseconds"
    | some elapsedMs =>
      match I64.checked (clock.wallAnchorMs + elapsedMs) with
      | none => .error "The state store clock overflowed"
      | some candidate => .ok candidate

/-- The last statements of `observe` (`state_store.rs`, lines 1121-1123). -/
def StoreClock.advance (clock : StoreClock) (candidate : I64) : Except String I64 × StoreClock :=
  let candidate := max candidate clock.lastMs
  (.ok candidate, { clock with lastMs := candidate })

/-- `StoreClock::observe` (`state_store.rs`, lines 1104-1124): the answer, and the clock that
    the call leaves. -/
def StoreClock.observe (clock : StoreClock) (wallNowMs : Option I64) (monotonicNow : ℕ) :
    Except String I64 × StoreClock :=
  match clock.candidate monotonicNow with
  | .error message => (.error message, clock)
  | .ok candidate =>
    match wallNowMs.filter (fun wall => decide (candidate < wall)) with
    | some wall =>
      { clock with wallAnchorMs := wall, monotonicAnchor := monotonicNow }.advance wall
    | none => clock.advance candidate

/-- One observation: what the two clocks showed. -/
structure Reading where
  wallNowMs : Option I64
  monotonicNow : ℕ
deriving DecidableEq

/-- The answers to a sequence of observations, each with its reading. -/
def StoreClock.observeAll : StoreClock → List Reading → List (Reading × Except String I64)
  | _, [] => []
  | clock, reading :: readings =>
    let (answer, clock) := clock.observe reading.wallNowMs reading.monotonicNow
    (reading, answer) :: clock.observeAll readings

/-! ## One observation -/

/-- The time by the monotonic clock: the anchor and the whole milliseconds since. -/
def StoreClock.counted (clock : StoreClock) (monotonicNow : ℕ) : ℤ :=
  clock.wallAnchorMs + asMillis (monotonicNow - clock.monotonicAnchor)

/-- The monotonic clock is not behind the anchor, and the elapsed time and the counted time
    are in range. -/
def StoreClock.Representable (clock : StoreClock) (monotonicNow : ℕ) : Prop :=
  clock.monotonicAnchor ≤ monotonicNow ∧
    InI64 (asMillis (monotonicNow - clock.monotonicAnchor)) ∧ InI64 (clock.counted monotonicNow)

/-- The time that an observation stands for, computed in the integers: the counted time or a
    wall clock that has run ahead of it, and never before the last answer. -/
def StoreClock.exactTime (clock : StoreClock) (wallNowMs : Option I64) (monotonicNow : ℕ) : ℤ :=
  max (wallNowMs.elim (clock.counted monotonicNow) fun wall => max (clock.counted monotonicNow) wall)
    clock.lastMs

theorem I64.checked_eq_none_iff {x : ℤ} : I64.checked x = none ↔ ¬ InI64 x := by
  unfold I64.checked
  split <;> simp [*]

theorem checkedDurationSince_eq_some_iff {now earlier elapsed : ℕ} :
    checkedDurationSince now earlier = some elapsed ↔ earlier ≤ now ∧ elapsed = now - earlier := by
  unfold checkedDurationSince
  split <;> grind

theorem checkedDurationSince_eq_none_iff {now earlier : ℕ} :
    checkedDurationSince now earlier = none ↔ now < earlier := by
  unfold checkedDurationSince
  split <;> grind

theorem StoreClock.candidate_cases (c : StoreClock) (monotonicNow : ℕ) :
    (∃ msg, c.candidate monotonicNow = .error msg ∧
      ¬ c.Representable monotonicNow) ∨
      ∃ cand, c.candidate monotonicNow = .ok cand ∧
        c.Representable monotonicNow ∧ cand.val = c.counted monotonicNow := by
  unfold StoreClock.candidate
  split
  · next hn =>
    have hb := checkedDurationSince_eq_none_iff.mp hn
    exact .inl ⟨_, rfl, fun hr => absurd hr.1 (not_le.mpr hb)⟩
  next elapsed hs =>
  obtain ⟨ha, rfl⟩ := checkedDurationSince_eq_some_iff.mp hs
  split
  · next hn =>
    exact .inl ⟨_, rfl, fun hr => I64.checked_eq_none_iff.mp hn hr.2.1⟩
  next elapsedMs he =>
  rw [I64.checked_eq_some_iff] at he
  rw [he]
  split
  · next hn =>
    exact .inl ⟨_, rfl, fun hr => I64.checked_eq_none_iff.mp hn hr.2.2⟩
  next cand hc =>
  rw [I64.checked_eq_some_iff] at hc
  have hcn : InI64 (c.counted monotonicNow) := by
    rw [counted, ← hc]
    exact cand.property
  exact .inr ⟨cand, rfl, ⟨ha, he ▸ elapsedMs.property, hcn⟩, hc⟩

/-- What an observation can do: fail and leave the clock, answer by the counted time, or
    answer by a wall clock that has run ahead and anchor there. -/
inductive Observed (clock : StoreClock) (wallNowMs : Option I64) (monotonicNow : ℕ) :
    Except String I64 × StoreClock → Prop
  | failed (message : String) (hfails : ¬ clock.Representable monotonicNow) :
      Observed clock wallNowMs monotonicNow (.error message, clock)
  | counted (candidate : I64) (hrep : clock.Representable monotonicNow)
      (hcandidate : candidate.val = clock.counted monotonicNow)
      (hwall : ∀ wall ∈ wallNowMs, wall ≤ candidate) :
      Observed clock wallNowMs monotonicNow (clock.advance candidate)
  | ahead (wall : I64) (hrep : clock.Representable monotonicNow)
      (hwall : wallNowMs = some wall) (hahead : clock.counted monotonicNow < wall) :
      Observed clock wallNowMs monotonicNow
        ({ clock with wallAnchorMs := wall, monotonicAnchor := monotonicNow }.advance wall)

/-- Every observation is one of the three. -/
theorem StoreClock.observe_observed (c : StoreClock) (wn : Option I64) (mono : ℕ) :
    Observed c wn mono (c.observe wn mono) := by
  unfold observe
  obtain ⟨msg, heq, hf⟩ | ⟨cand, heq, hr, hc⟩ :=
    c.candidate_cases mono
  · rw [heq]
    exact .failed msg hf
  rw [heq]
  dsimp only
  split
  · next wall hw =>
    rw [Option.filter_eq_some_iff, decide_eq_true_eq] at hw
    refine .ahead wall hr hw.1 ?_
    rw [← hc]
    exact Subtype.coe_lt_coe.mpr hw.2
  · next hw =>
    refine .counted cand hr hc ?_
    intro wall hm
    rw [Option.filter_eq_none_iff] at hw
    have hn := hw wall hm
    rw [decide_eq_true_eq, not_lt] at hn
    exact hn

@[simp] theorem StoreClock.advance_fst (c : StoreClock) (cand : I64) :
    (c.advance cand).1 = .ok (max cand c.lastMs) :=
  rfl

theorem I64.coe_max (x y : I64) : ((max x y : I64) : ℤ) = max x.val y.val :=
  Monotone.map_max (Subtype.mono_coe _)

/-- An observation answers exactly when its sums are in range, and then with their exact
    value. -/
theorem StoreClock.observe_eq_ok_iff (c : StoreClock) (wn : Option I64)
    (monotonicNow : ℕ) (time : I64) :
    (c.observe wn monotonicNow).1 = .ok time ↔
      c.Representable monotonicNow ∧ time.val = c.exactTime wn monotonicNow := by
  have ho := c.observe_observed wn monotonicNow
  generalize c.observe wn monotonicNow = result at ho ⊢
  cases ho with
  | failed msg hf => simp [hf]
  | counted cand hr hc hw =>
    have he : c.exactTime wn monotonicNow = (max cand c.lastMs : I64) := by
      rw [exactTime, I64.coe_max, ← hc]
      cases wn with
      | none => rfl
      | some wall =>
        have hle : wall.val ≤ cand.val := hw wall rfl
        simp [max_eq_left hle]
    rw [advance_fst, Except.ok.injEq, he, Subtype.ext_iff]
    exact ⟨fun h => ⟨hr, h.symm⟩, fun h => h.2.symm⟩
  | ahead wall hr hw ha =>
    have he : c.exactTime wn monotonicNow = (max wall c.lastMs : I64) := by
      rw [exactTime, I64.coe_max, hw]
      simp [max_eq_right ha.le]
    rw [advance_fst, Except.ok.injEq, he, Subtype.ext_iff]
    exact ⟨fun h => ⟨hr, h.symm⟩, fun h => h.2.symm⟩

/-- A failed observation leaves the clock as it was. -/
theorem StoreClock.observe_error (clock : StoreClock) (wall : Option I64) (mono : ℕ) (msg : String)
    (h : (clock.observe wall mono).1 = .error msg) :
    (clock.observe wall mono).2 = clock := by
  have ho := clock.observe_observed wall mono
  generalize clock.observe wall mono = result at ho h ⊢
  cases ho with
  | failed => rfl
  | counted | ahead => cases h

/-! ## Runs -/

/-- The anchor, in nanoseconds, is not behind the monotonic clock counted from the first
    anchor `a0` at `m0`. Moving the anchor keeps this although the elapsed time is cut to whole
    milliseconds, since the wall clock is then ahead by a whole millisecond at least. -/
def StoreClock.Sound (a0 : I64) (m0 : ℕ) (clock : StoreClock) : Prop :=
  m0 ≤ clock.monotonicAnchor ∧
    a0.val * 10 ^ 6 + (clock.monotonicAnchor - m0 : ℕ) ≤ clock.wallAnchorMs * 10 ^ 6

theorem StoreClock.sound_new (a0 : I64) (m0 : ℕ) : (StoreClock.new a0 m0).Sound a0 m0 := by
  simp [Sound, new]

/-- The counted time of a sound clock has lost no millisecond. -/
theorem StoreClock.Sound.le_counted {a0 : I64} {m0 : ℕ} {c : StoreClock}
    (h : c.Sound a0 m0) {monotonicNow : ℕ} (ha : c.monotonicAnchor ≤ monotonicNow) :
    a0.val + asMillis (monotonicNow - m0) ≤ c.counted monotonicNow := by
  obtain ⟨hf, hah⟩ := h
  unfold counted asMillis
  omega

/-- The last answer never goes back, and an answer is the last one. -/
theorem StoreClock.lastMs_observe (c : StoreClock) (wall : Option I64) (mono : ℕ) :
    c.lastMs ≤ (c.observe wall mono).2.lastMs ∧
      ∀ time, (c.observe wall mono).1 = .ok time →
        time = (c.observe wall mono).2.lastMs := by
  have ho := c.observe_observed wall mono
  generalize c.observe wall mono = result at ho ⊢
  cases ho with
  | failed =>
    refine ⟨le_rfl, ?_⟩
    rintro time ⟨⟩
  | counted | ahead =>
    refine ⟨le_max_right _ _, ?_⟩
    rintro _ ⟨⟩
    rfl

/-- One observation keeps a clock sound, and its answer is not behind the monotonic clock. -/
theorem StoreClock.Sound.observe {a0 : I64} {m0 : ℕ} {c : StoreClock}
    (h : c.Sound a0 m0) (wn : Option I64) (mono : ℕ) :
    (c.observe wn mono).2.Sound a0 m0 ∧
      ∀ time, (c.observe wn mono).1 = .ok time →
        a0.val + asMillis (mono - m0) ≤ time := by
  have ho := c.observe_observed wn mono
  generalize c.observe wn mono = result at ho ⊢
  cases ho with
  | failed =>
    refine ⟨h, ?_⟩
    rintro time ⟨⟩
  | counted cand hr hcn hw =>
    refine ⟨h, ?_⟩
    rintro _ ⟨⟩
    have hc := h.le_counted hr.1
    rw [I64.coe_max, hcn]
    exact hc.trans (le_max_left _ _)
  | ahead wall hr hw ha =>
    have hc := h.le_counted hr.1
    refine ⟨?_, ?_⟩
    · have hf := h.1
      have han := h.2
      have hn := hr.1
      refine ⟨hf.trans hn, ?_⟩
      show a0.val * 10 ^ 6 + (mono - m0 : ℕ) ≤ wall * 10 ^ 6
      unfold StoreClock.counted asMillis at ha
      omega
    · rintro _ ⟨⟩
      exact (hc.trans ha.le).trans (le_max_left _ _)

/-- The answers of a sound clock: none before its last answer, none behind the monotonic
    clock, none before an earlier one. -/
theorem StoreClock.Sound.observeAll {a0 : I64} {m0 : ℕ} {c : StoreClock}
    (h : c.Sound a0 m0) (readings : List Reading) :
    (∀ e ∈ c.observeAll readings, ∀ time, e.2 = .ok time →
        c.lastMs ≤ time ∧ a0.val + asMillis (e.1.monotonicNow - m0) ≤ time) ∧
      (c.observeAll readings).Pairwise fun earlier lat =>
        ∀ t u, earlier.2 = .ok t → lat.2 = .ok u → t ≤ u := by
  induction readings generalizing c with
  | nil => simp [StoreClock.observeAll]
  | cons r readings ih =>
    obtain ⟨hs, han⟩ := h.observe r.wallNowMs r.monotonicNow
    obtain ⟨hls, hl⟩ := c.lastMs_observe r.wallNowMs r.monotonicNow
    obtain ⟨hb, hp⟩ := ih hs
    simp only [StoreClock.observeAll, List.forall_mem_cons, List.pairwise_cons]
    refine ⟨⟨?_, ?_⟩, ?_, hp⟩
    · intro time htm
      exact ⟨hl time htm ▸ hls, han time htm⟩
    · intro e he time htm
      obtain ⟨ha, hbn⟩ := hb e he time htm
      exact ⟨hls.trans ha, hbn⟩
    · intro e he t u ht hu
      rw [hl t ht]
      exact (hb e he u hu).1

/-- The times of the clock started at wall time `a0`, over any sequence of readings: they never
    go back, and none is behind `a0` plus the whole milliseconds of the monotonic clock. An
    observation answers exactly when its sums are in range, with their exact value, and leaves
    the clock alone when it fails; the expiration times derived from an answer are exact or
    refused too. -/
theorem observed_times_monotone (a0 : I64) (m0 : ℕ) (readings : List Reading) :
    (((StoreClock.new a0 m0).observeAll readings).Pairwise fun earlier later =>
        ∀ t u, earlier.2 = .ok t → later.2 = .ok u → t ≤ u) ∧
      (∀ entry ∈ (StoreClock.new a0 m0).observeAll readings, ∀ time, entry.2 = .ok time →
        a0.val + asMillis (entry.1.monotonicNow - m0) ≤ time) ∧
      (∀ clock : StoreClock, ∀ wallNowMs monotonicNow time,
        (clock.observe wallNowMs monotonicNow).1 = .ok time ↔
          clock.Representable monotonicNow ∧
            time.val = clock.exactTime wallNowMs monotonicNow) ∧
      (∀ clock : StoreClock, ∀ wallNowMs monotonicNow message,
        (clock.observe wallNowMs monotonicNow).1 = .error message →
          (clock.observe wallNowMs monotonicNow).2 = clock) ∧
      ∀ now ttlMs expiresAt : ℤ, expirationTime now ttlMs = .ok expiresAt ↔
        InI64 (now + ttlMs) ∧ expiresAt = now + ttlMs := by
  have hrn := (StoreClock.sound_new a0 m0).observeAll readings
  refine ⟨hrn.2, ?_, StoreClock.observe_eq_ok_iff, StoreClock.observe_error, ?_⟩
  · intro entry he time ht
    exact (hrn.1 entry he time ht).2
  intro now ttlMs expiresAt
  unfold expirationTime
  split
  · next hr =>
    rw [Except.ok.injEq]
    exact ⟨fun h => ⟨hr, h.symm⟩, fun h => h.2.symm⟩
  · next hr => exact ⟨fun h => (nomatch h), fun h => absurd h.1 hr⟩

end DufsRam.StateStore
