import DufsRam.PathCoordinator.Coordinator

/-!
# Live leases exclude each other and are granted on current keys

Keys are resolved without a lock and the lease epoch moves only when a lease is
released, so a key can be out of date while a request still holds it. What saves
`try_acquire` is the invariant `KeyFresh`: as long as the epoch is the one the keys
were resolved under, a key that is no longer the filesystem's conflicts with a live
lease, and then the request is blocked.

Results:
* `reachable_exclusive`: no two live leases conflict.
* `grant_keys_fresh`: the keys of a new lease are those of the filesystem, except
  where a resolution failed and the root key stands in for it.
-/

namespace DufsRam.PathCoordinator

variable {FS : Type} {r : Resolver FS} {fs : FS}

/-! ## Exclusion -/

/-- Lease ids are below the next one, and distinct leases do not conflict. -/
structure Exclusive (inner : CoordinatorInner) : Prop where
  issued : ∀ id held, inner.leases.get id = some held → id < inner.nextId
  disjoint : ∀ i j left right, inner.leases.get i = some left → inner.leases.get j = some right →
    i ≠ j → pathsConflict left right = false

variable {inner : CoordinatorInner} {s s' : System FS} {e : Event FS} {epoch : ℕ}
  {keys : List LeaseKey} {t : Request}

theorem isBlocked_eq_false {req : List LeaseKey} {w : ℕ}
    (h : inner.isBlocked req w = false) {id : ℕ} {held : List LeaseKey}
    (hl : inner.leases.get id = some held) : pathsConflict held req = false := by
  unfold CoordinatorInner.isBlocked at h
  rw [Bool.or_eq_false_iff] at h
  exact Table.any_eq_false_iff.mp h.1 id held hl

theorem Exclusive.grant (h : Exclusive inner) {req : List LeaseKey} {w : ℕ}
    (hb : inner.isBlocked req w = false) (waiters : Table ℕ WaiterState) (changes : ℕ) :
    Exclusive
      { inner with
        nextId := inner.nextId + 1
        waiters := waiters
        leases := inner.leases.put inner.nextId req
        changes := changes } := by
  have hn : ∀ id held, inner.leases.get id = some held → pathsConflict held req = false :=
    fun id held hl => isBlocked_eq_false hb hl
  refine ⟨Table.forall_get_put (Nat.lt_succ_self _) fun id held hl => ?_,
    fun i j left right hi hj hne => ?_⟩
  · exact Nat.lt_succ_of_lt (h.issued id held hl)
  · rw [Table.get_put] at hi hj
    split_ifs at hi hj with hi' hj' hj'
    · exact absurd (hi'.trans hj'.symm) hne
    · obtain rfl : req = left := Option.some.inj hi
      rw [pathsConflict_comm]
      exact hn j right hj
    · obtain rfl : req = right := Option.some.inj hj
      exact hn i left hi
    · exact h.disjoint i j left right hi hj hne

theorem Exclusive.erase (h : Exclusive inner) (l : ℕ) :
    Exclusive { inner with leases := inner.leases.erase l } := by
  exact ⟨fun id held hl => h.issued id held (Table.get_of_get_erase hl).2,
    fun i j left right hi hj => h.disjoint i j left right (Table.get_of_get_erase hi).2
      (Table.get_of_get_erase hj).2⟩

theorem step_exclusive (h : Exclusive s.inner) (hs : StepCase r s e s') : Exclusive s'.inner := by
  cases hs with
  | grant _ _ _ _ _ _ hb => exact h.grant hb _ _
  | dropLease => exact h.erase _
  | mark inner _ _ _ hi =>
    rcases hi with rfl | ⟨_, rfl⟩
    · exact h
    · exact ⟨h.issued, h.disjoint⟩
  | _ => exact ⟨h.issued, h.disjoint⟩

/-- Distinct live leases never conflict, whatever the holders do to the filesystem. -/
theorem reachable_exclusive {ok : System FS → Event FS → Prop} (h : (machine r fs).Reachable ok s) :
    Exclusive s.inner := by
  refine h.invariant ?_ fun s e s' _ ih _ hs => step_exclusive ih (step_cases hs)
  exact ⟨nofun, nofun⟩

/-! ## Freshness -/

/-- A mutation under a lease changes the key of a path only if the path's key just
    before it conflicts with a key that the lease recorded. -/
def MutationRespectsKeys (r : Resolver FS) (s : System FS) : Event FS → Prop
  | .mutate lease fs' => ∀ held, s.inner.leases.get lease = some held →
      ∀ path, r.keyOf fs' path ≠ r.keyOf s.fs path →
        ∃ key ∈ held, pathKeysConflict key ⟨path, r.keyOf s.fs path⟩ = true
  | _ => True

/-- A live lease conflicts with the key. -/
def Covered (s : System FS) (key : LeaseKey) : Prop :=
  ∃ lease held, s.inner.leases.get lease = some held ∧ pathsConflict held [key] = true

/-- The key is the filesystem's, or stands in for a failed resolution, or cannot be
    granted because a live lease conflicts with it. -/
def KeyFresh (r : Resolver FS) (s : System FS) (failed : List Path) (key : LeaseKey) : Prop :=
  key.resolved = r.keyOf s.fs key.lexical ∨
    (key.lexical ∈ failed ∧ key.resolved = conservativePathKey r.rootIdentity) ∨ Covered s key

/-- Keys resolved under the current epoch are fresh, unless the epoch is about to move. -/
def KeysFresh (r : Resolver FS) (s : System FS) (failed : List Path) (epoch : ℕ)
    (keys : List LeaseKey) : Prop :=
  epoch = s.inner.leaseEpoch → s.dropping ≠ some .removed → ∀ key ∈ keys, KeyFresh r s failed key

/-- What holds of a request at each of its program points. -/
structure RequestFresh (r : Resolver FS) (s : System FS) (t : Request) : Prop where
  resolved : ∀ epoch keys, t.resolvedPaths = some (epoch, keys) →
    epoch ≤ s.inner.leaseEpoch ∧ KeysFresh r s t.failed epoch keys
  loaded : ∀ epoch, t.phase = .loaded epoch → epoch ≤ s.inner.leaseEpoch ∧
    ∀ old keys, t.resolvedPaths = some (old, keys) → old ≤ epoch
  resolving : ∀ epoch keys todo, t.phase = .resolving epoch keys todo →
    epoch ≤ s.inner.leaseEpoch ∧ KeysFresh r s t.failed epoch keys ∧
      ∀ old keys', t.resolvedPaths = some (old, keys') → old < epoch
  attempting : ∀ epoch, t.phase = .attempting epoch →
    ∃ keys, t.resolvedPaths = some (epoch, keys)

/-- What the surroundings of a request may do to its keys. -/
structure Evolves (r : Resolver FS) (s s' : System FS) : Prop where
  epoch : s.inner.leaseEpoch ≤ s'.inner.leaseEpoch
  fresh : s.inner.leaseEpoch = s'.inner.leaseEpoch → s'.dropping ≠ some .removed →
    s.dropping ≠ some .removed ∧ ∀ failed key, KeyFresh r s failed key → KeyFresh r s' failed key

theorem KeysFresh.evolves (he : Evolves r s s') {fd : List Path}
    (hle : epoch ≤ s.inner.leaseEpoch) (h : KeysFresh r s fd epoch keys) :
    KeysFresh r s' fd epoch keys := by
  intro hep hd key hk
  have heq : s.inner.leaseEpoch = s'.inner.leaseEpoch := le_antisymm he.epoch (hep ▸ hle)
  obtain ⟨hd', hf⟩ := he.fresh heq hd
  exact hf fd key (h (hep.trans heq.symm) hd' key hk)

theorem RequestFresh.evolves (he : Evolves r s s') (h : RequestFresh r s t) :
    RequestFresh r s' t where
  resolved := fun epoch keys hk =>
    have ⟨hle, hf⟩ := h.resolved epoch keys hk
    ⟨hle.trans he.epoch, hf.evolves he hle⟩
  loaded := fun epoch hp =>
    have ⟨hle, hold⟩ := h.loaded epoch hp
    ⟨hle.trans he.epoch, hold⟩
  resolving := fun epoch keys todo hp =>
    have ⟨hle, hf, hold⟩ := h.resolving epoch keys todo hp
    ⟨hle.trans he.epoch, hf.evolves he hle, hold⟩
  attempting := h.attempting

/-! ### One step of the surroundings -/

theorem Covered.mono {key : LeaseKey}
    (hl : ∀ id held, s.inner.leases.get id = some held → s'.inner.leases.get id = some held)
    (h : Covered s key) : Covered s' key := by
  obtain ⟨l, held, hg, hc⟩ := h
  exact ⟨l, held, hl l held hg, hc⟩

theorem KeyFresh.mono {fd : List Path} {key : LeaseKey} (hfs : s'.fs = s.fs)
    (hl : ∀ id held, s.inner.leases.get id = some held → s'.inner.leases.get id = some held)
    (h : KeyFresh r s fd key) : KeyFresh r s' fd key := by
  rcases h with h | h | h
  · exact .inl (by rw [hfs]; exact h)
  · exact .inr (.inl h)
  · exact .inr (.inr (h.mono hl))

/-- A step that leaves the filesystem, the epoch and the drop in progress alone, and
    removes no lease. -/
theorem Evolves.of_leases (he : s'.inner.leaseEpoch = s.inner.leaseEpoch)
    (hdr : s'.dropping = s.dropping) (hfs : s'.fs = s.fs)
    (hl : ∀ id held, s.inner.leases.get id = some held → s'.inner.leases.get id = some held) :
    Evolves r s s' :=
  ⟨he.ge, fun _ hd => ⟨hdr ▸ hd, fun _ _ h => h.mono hfs hl⟩⟩

/-- A mutation makes a key out of date only if its lease covers the key from then on. -/
theorem Evolves.mutate {l : ℕ} {held : List LeaseKey} {fs' : FS}
    (hl : s.inner.leases.get l = some held) (hok : MutationRespectsKeys r s (.mutate l fs')) :
    Evolves r s { s with fs := fs' } := by
  refine ⟨le_rfl, fun _ hd => ⟨hd, fun fd key h => ?_⟩⟩
  rcases h with h | h | h
  · by_cases hs : r.keyOf fs' key.lexical = r.keyOf s.fs key.lexical
    · exact .inl (h.trans hs.symm)
    obtain ⟨key', hm, hc⟩ := hok held hl key.lexical hs
    refine .inr (.inr ⟨l, held, hl, pathsConflict_iff.mpr ⟨key', hm, key, ?_, ?_⟩⟩)
    · exact List.mem_singleton_self key
    · rw [← h] at hc
      exact hc
  · exact .inr (.inl h)
  · exact .inr (.inr h)

theorem step_evolves (hx : Exclusive s.inner) (hok : MutationRespectsKeys r s e)
    (hs : StepCase r s e s') : Evolves r s s' := by
  cases hs with
  | grant _ _ _ _ hd =>
    refine .of_leases rfl rfl rfl fun id held hl => ?_
    -- The new id is none of the issued ones.
    have hne : id ≠ s.inner.nextId := (hx.issued id held hl).ne
    simpa [System.setRequest, hne] using hl
  | dropLease => exact ⟨le_rfl, fun _ hd => absurd rfl hd⟩
  | bumpEpoch => exact ⟨Nat.le_succ _, fun h => absurd h (Nat.succ_ne_self _).symm⟩
  | notifyDropped hd =>
    refine ⟨le_rfl, fun _ _ => ⟨by simp [hd], fun _ _ h => h.mono rfl fun _ _ hl => hl⟩⟩
  | mutate fs' he hl =>
    subst he
    exact .mutate hl hok
  | mark inner _ _ _ hi =>
    rcases hi with rfl | ⟨_, rfl⟩ <;> exact .of_leases rfl rfl rfl fun _ _ hl => hl
  | _ => exact .of_leases rfl rfl rfl fun _ _ hl => hl

/-! ### One step of a request -/

/-- At a program point without keys of its own only the resolved paths matter. -/
theorem RequestFresh.setPhase (h : RequestFresh r s t) (seen : ℕ) {phase : Phase}
    (hl : ∀ epoch, phase ≠ .loaded epoch)
    (hr : ∀ epoch keys todo, phase ≠ .resolving epoch keys todo)
    (ha : ∀ epoch, phase ≠ .attempting epoch) :
    RequestFresh r s { t with seen := seen, phase := phase } where
  resolved := h.resolved
  loaded := fun epoch hp => absurd hp (hl epoch)
  resolving := fun epoch keys todo hp => absurd hp (hr epoch keys todo)
  attempting := fun epoch hp => absurd hp (ha epoch)

theorem RequestFresh.loadEpoch (h : RequestFresh r s t) :
    RequestFresh r s { t with phase := .loaded s.inner.leaseEpoch } where
  resolved := h.resolved
  loaded := fun epoch hp => by
    obtain rfl : s.inner.leaseEpoch = epoch := Phase.loaded.inj hp
    exact ⟨le_rfl, fun old keys hk => (h.resolved old keys hk).1⟩
  resolving := nofun
  attempting := nofun

theorem RequestFresh.keep (h : RequestFresh r s t) (hk : t.resolvedPaths = some (epoch, keys)) :
    RequestFresh r s { t with phase := .attempting epoch } where
  resolved := h.resolved
  loaded := nofun
  resolving := nofun
  attempting := fun epoch' hp => by
    obtain rfl : epoch = epoch' := Phase.attempting.inj hp
    exact ⟨keys, hk⟩

theorem RequestFresh.mark (h : RequestFresh r s t) (hp : t.phase = .loaded epoch)
    (hk : ∀ keys, t.resolvedPaths ≠ some (epoch, keys)) :
    RequestFresh r s
      { t with failed := [], phase := .resolving epoch [] t.lexicalPaths } := by
  obtain ⟨hle, hold⟩ := h.loaded epoch hp
  -- The keys of an earlier round belong to an epoch that is over.
  have hlt : ∀ old keys, t.resolvedPaths = some (old, keys) → old < epoch := by
    intro old keys ho'
    refine lt_of_le_of_ne (hold old keys ho') ?_
    rintro rfl
    exact hk keys ho'
  refine ⟨fun old keys ho' => ?_, nofun, fun epoch' keys todo hp' => ?_, nofun⟩
  · have hlt' := hlt old keys ho'
    exact ⟨(h.resolved old keys ho').1, fun heq => absurd heq (by omega)⟩
  · obtain ⟨rfl, rfl, -⟩ := Phase.resolving.inj hp'
    exact ⟨hle, fun _ _ key hky => absurd hky List.not_mem_nil, hlt⟩

theorem RequestFresh.resolve (h : RequestFresh r s t) {ps : List LeaseKey} {lexical : Path}
    {todo : List Path} (succeeds : Bool) (hp : t.phase = .resolving epoch ps (lexical :: todo)) :
    RequestFresh r s
      { t with
        failed := if succeeds then t.failed else t.failed ++ [lexical]
        phase := .resolving epoch
          (ps ++ [⟨lexical, if succeeds then r.keyOf s.fs lexical
            else conservativePathKey r.rootIdentity⟩]) todo } := by
  obtain ⟨hle, hf, hlt⟩ := h.resolving epoch ps (lexical :: todo) hp
  refine ⟨fun old keys hold => ?_, nofun, fun epoch' keys todo' hp' => ?_, nofun⟩
  · have hlt' := hlt old keys hold
    exact ⟨(h.resolved old keys hold).1, fun heq => absurd heq (by omega)⟩
  obtain ⟨rfl, rfl, -⟩ := Phase.resolving.inj hp'
  refine ⟨hle, fun heq hd key hk => ?_, hlt⟩
  rcases List.mem_append.mp hk with hold | hn
  · rcases hf heq hd key hold with hcr | ⟨hm, hc⟩ | hcv
    · exact .inl hcr
    · refine .inr (.inl ⟨?_, hc⟩)
      cases succeeds
      · exact List.mem_append_left _ hm
      · exact hm
    · exact .inr (.inr hcv)
  · obtain rfl := List.mem_singleton.mp hn
    cases succeeds
    · exact .inr (.inl ⟨List.mem_append_right _ (List.mem_singleton_self _), rfl⟩)
    · exact .inl rfl

theorem RequestFresh.finishResolving (h : RequestFresh r s t) {ps : List LeaseKey}
    (hp : t.phase = .resolving epoch ps []) :
    RequestFresh r s
      { t with resolvedPaths := some (epoch, ps), phase := .attempting epoch } := by
  obtain ⟨hle, hf, -⟩ := h.resolving epoch ps [] hp
  refine ⟨fun epoch' keys hk => ?_, nofun, nofun, fun epoch' hp' => ?_⟩
  · obtain ⟨rfl, rfl⟩ := Prod.mk.inj (Option.some.inj hk)
    exact ⟨hle, hf⟩
  · obtain rfl : epoch = epoch' := Phase.attempting.inj hp'
    exact ⟨ps, rfl⟩

/-! ### Whole runs -/

/-- Every request is fresh. -/
def Fresh (r : Resolver FS) (s : System FS) : Prop :=
  ∀ w t, s.requests.get w = some t → RequestFresh r s t

/-- Updating one request keeps all of them fresh if the new one is. -/
theorem Fresh.setRequest (h : Fresh r s) {w : ℕ} (ht : RequestFresh r s t) :
    ∀ w' t', (s.requests.put w t).get w' = some t' →
      RequestFresh r s t' :=
  Table.forall_get_put ht h

theorem step_requests_fresh (h : Fresh r s) (hs : StepCase r s e s') :
    ∀ w t, s'.requests.get w = some t → RequestFresh r s t := by
  cases hs with
  | allocate ps => exact h.setRequest ⟨nofun, nofun, nofun, nofun⟩
  | insert ht | parkBehind ht | stale ht | blocked _ ht | grant _ ht | cancelAbsent ht
  | cancel ht | notifyCancelled ht => exact h.setRequest ((h _ _ ht).setPhase _ nofun nofun nofun)
  | observe ph ht hp =>
    refine h.setRequest ((h _ _ ht).setPhase _ ?_ ?_ ?_) <;>
      rcases hp with ⟨-, rfl⟩ | ⟨-, rfl⟩ | ⟨-, -, rfl⟩ <;> nofun
  | loadEpoch ht _ => exact h.setRequest (h _ _ ht).loadEpoch
  | keep ht _ hk => exact h.setRequest ((h _ _ ht).keep hk)
  | mark inner ht hp hk _ => exact h.setRequest ((h _ _ ht).mark hp hk)
  | resolve succeeds ht hp => exact h.setRequest ((h _ _ ht).resolve succeeds hp)
  | finishResolving ht hp => exact h.setRequest ((h _ _ ht).finishResolving hp)
  | dropLease | bumpEpoch | notifyDropped | mutate => exact h

theorem reachable_fresh (h : (machine r fs).Reachable (MutationRespectsKeys r) s) : Fresh r s := by
  refine h.invariant nofun fun s e s' hs ih hok hst w t ht => ?_
  have hc := step_cases hst
  exact (step_requests_fresh ih hc w t ht).evolves (step_evolves (reachable_exclusive hs) hok hc)

/-- A step that adds a lease is a successful `try_acquire`, and the keys it records
    conflict with no other live lease. -/
theorem new_lease (hs : StepCase r s e s') {l : ℕ} (hold : s.inner.leases.get l = none)
    (hn : s'.inner.leases.get l = some keys) :
    ∃ w t epoch', e = .tryAcquire w ∧ s.requests.get w = some t ∧
      t.phase = .attempting s.inner.leaseEpoch ∧ t.resolvedPaths = some (epoch', keys) ∧
      s.dropping = none ∧ s.inner.isBlocked keys w = false ∧ s'.fs = s.fs := by
  have hne : s.inner.leases.get l ≠ some keys := by simp [hold]
  cases hs with
  | @grant w t epoch' req wt he ht hp hk hd hw hb =>
    simp only [System.setRequest, Table.get_put] at hn
    split_ifs at hn with hid
    · obtain ⟨⟩ := hn
      exact ⟨w, t, epoch', he, ht, hp, hk, hd, hb, rfl⟩
    · exact absurd hn hne
  | dropLease => exact absurd (Table.get_of_get_erase hn).2 hne
  | mark inner _ _ _ hi =>
    rcases hi with rfl | ⟨_, rfl⟩ <;> exact absurd hn hne
  | _ => exact absurd hn hne

/-- When a lease is granted, each of its keys is the one the filesystem gives for its
    lexical path, unless the resolution of that path failed: then it is the root key. -/
theorem grant_keys_fresh (h : (machine r fs).Reachable (MutationRespectsKeys r) s)
    (hs : (machine r fs).step s e = some s') {ls : ℕ} (hold : s.inner.leases.get ls = none)
    (hn : s'.inner.leases.get ls = some keys) :
    ∃ w t, e = .tryAcquire w ∧ s.requests.get w = some t ∧ ∀ key ∈ keys,
      key.resolved = r.keyOf s'.fs key.lexical ∨
        (key.lexical ∈ t.failed ∧ key.resolved = conservativePathKey r.rootIdentity) := by
  obtain ⟨w, t, epoch', he, ht, hp, hk, hd, hb, hfs⟩ := new_lease (step_cases hs) hold hn
  have hf := reachable_fresh h w t ht
  -- The keys were resolved under the current epoch.
  obtain rfl : epoch' = s.inner.leaseEpoch := by
    obtain ⟨keys', hk'⟩ := hf.attempting _ hp
    exact (Prod.mk.inj (Option.some.inj (hk.symm.trans hk'))).1
  refine ⟨w, t, he, ht, fun key hky => ?_⟩
  rcases (hf.resolved _ keys hk).2 rfl (by rw [hd]; nofun) key hky with hcr | hfl | hcv
  · exact .inl (by rw [hfs]; exact hcr)
  · exact .inr hfl
  -- A covered key would have blocked the request.
  obtain ⟨l', held, hl, hc⟩ := hcv
  obtain ⟨l, hl', k, hk', hlk⟩ := pathsConflict_iff.mp hc
  obtain rfl := List.mem_singleton.mp hk'
  have : pathsConflict held keys = true := pathsConflict_iff.mpr ⟨l, hl', k, hky, hlk⟩
  rw [isBlocked_eq_false hb hl] at this
  cases this

/-- In every reachable state no keys of two distinct live leases conflict, whatever
    the holders do to the filesystem; and when mutations respect the recorded keys,
    every key of a newly granted lease is the key the filesystem gives for its path, or
    the root key recorded because the resolution of that path failed. -/
theorem leases_exclusive_and_fresh (r : Resolver FS) (fs : FS) :
    (∀ s, (machine r fs).Reachable (fun _ _ => True) s →
      ∀ i j left right, s.inner.leases.get i = some left → s.inner.leases.get j = some right →
        i ≠ j → ∀ l ∈ left, ∀ k ∈ right, pathKeysConflict l k = false) ∧
    (∀ s s' e lease keys, (machine r fs).Reachable (MutationRespectsKeys r) s →
      (machine r fs).step s e = some s' → s.inner.leases.get lease = none →
      s'.inner.leases.get lease = some keys →
        ∃ w t, e = .tryAcquire w ∧ s.requests.get w = some t ∧ ∀ key ∈ keys,
          key.resolved = r.keyOf s'.fs key.lexical ∨
            (key.lexical ∈ t.failed ∧ key.resolved = conservativePathKey r.rootIdentity)) := by
  refine ⟨fun s hs i j left right hi hj hne l hl k hk => ?_,
    fun s s' e lease keys hs hst hold hn => grant_keys_fresh hs hst hold hn⟩
  have hd := (reachable_exclusive hs).disjoint i j left right hi hj hne
  rw [← Bool.not_eq_true] at hd ⊢
  exact fun hc => hd (pathsConflict_iff.mpr ⟨l, hl, k, hk, hc⟩)

/-! ### A failed resolution -/

/-- A single request for `a`, up to `try_acquire`; the resolution of `a` fails. -/
def failedResolutionRun : List (Event Unit) :=
  [.allocate [["a"]], .insert 1, .subscribe 1, .borrowAndUpdate 1, .loadEpoch 1, .checkEpoch 1,
    .resolve 1 false, .finishResolving 1]

/-- The next `try_acquire` of the request grants it a lease on the root key. -/
def grantsRootKey (s : System Unit) : Bool :=
  decide (s.inner.leases.get 1 = none) &&
    (s.step flatResolver (.tryAcquire 1)).any fun s' =>
      decide (s'.inner.leases.get 1 = some [⟨["a"], conservativePathKey ⟨1, 2⟩⟩])

/-- A request whose resolution failed is granted on a key that is not the one the
    filesystem gives (lines 171-176 keep the root key on purpose). -/
theorem failed_resolution_granted :
    ∃ s s' keys, (machine flatResolver ()).Reachable (MutationRespectsKeys flatResolver) s ∧
      (machine flatResolver ()).step s (.tryAcquire 1) = some s' ∧
      s.inner.leases.get 1 = none ∧ s'.inner.leases.get 1 = some keys ∧
      ∃ key ∈ keys, key.resolved ≠ flatResolver.keyOf s'.fs key.lexical := by
  obtain ⟨s, hs, hp⟩ := Machine.exists_reachable_of_run (machine flatResolver ())
    failedResolutionRun grantsRootKey
    (show ∀ e ∈ failedResolutionRun, ∀ s, MutationRespectsKeys flatResolver s e by
      simp [failedResolutionRun, MutationRespectsKeys])
    (by decide)
  unfold grantsRootKey at hp
  rw [Bool.and_eq_true, decide_eq_true_iff, Option.any_eq_true] at hp
  obtain ⟨hold, s', hst, hn⟩ := hp
  have hk : conservativePathKey ⟨1, 2⟩ ≠ flatResolver.keyOf () ["a"] := by decide
  exact ⟨s, s', _, hs, hst, hold, of_decide_eq_true hn, _, List.mem_singleton_self _, hk⟩

end DufsRam.PathCoordinator
