import DufsRam.Purge.Worker

/-!
# Who owns an entry of the trash

The invariant that joins directory entries, purge rows and running tasks, and how the
elementary updates of a step keep it. Every occupant of a trash name has a row. A row that
is still prepared belongs to at most one running task, and a task removes a row only
when the trash path is empty.

Results:
* `Owned.of_shrinks`: entries may leave the trash, whoever moves them.
* `Owned.moveToTrash`: the rename of a DELETE.
* `Owned.of_rows_kept`, `Owned.markReady`, `Owned.erase`: updates of the rows.
-/

namespace DufsRam.Purge

open StateStore RootedFs

/-- What the invariants of the tasks read. -/
structure Ground where
  names : Table Place FileIdentity
  jobs : PurgeJobs Place
  usedKeys : List PurgeJobKey

def System.ground (s : System) : Ground := ⟨s.names, s.jobs, s.usedKeys⟩

/-- Where a deleted object may be. -/
inductive Located (names : Table Place FileIdentity) (purged : List FileIdentity)
    (object : FileIdentity) (target : Place) : Prop
  | purged (h : object ∈ purged)
  | target (h : names.get target = some object)
  | quarantine (d : FileIdentity) (id : Uuid) (h : names.get (d, .quarantine id) = some object)
  | trash (d : FileIdentity) (id : Uuid) (h : names.get (d, .trash id) = some object)

namespace Ground

variable (g : Ground)

/-- A row about the trash path `p`. -/
def Bound (p : Place) : Prop := ∃ key row, g.jobs.get key = some row ∧ row.trashPath = p

/-- The intent of `key` is recorded and nothing more. -/
def Prepared (key : PurgeJobKey) (target trash : Place) : Prop :=
  ∃ row, g.jobs.get key = some row ∧ row.state = .prepared ∧ row.targetPath = target ∧
    row.trashPath = trash

/-! ## The invariant of each task -/

/-- A DELETE owns its intent until the job is ready, and has moved nothing before the
    rename. -/
structure DeleteOwned (t : DeleteTask) : Prop where
  key_mem : t.key ∈ g.usedKeys
  target_eq : ∀ row, g.jobs.get t.key = some row → row.targetPath = t.target
  prepared : t.phase ≠ .ready → g.Prepared t.key t.target t.trash
  vacant : t.phase = .prepared ∨ t.phase = .started ∨ t.phase = .notMoved →
    g.names.get t.trash = none
  unclear : t.phase = .renameFailed →
    g.names.get t.trash = none ∨ g.names.get t.trash = some t.expected

structure ReconcileOwned (r : Reconciler) : Prop where
  key_mem : r.key ∈ g.usedKeys
  trash_eq : r.trash = trashPathForId r.target r.key.id
  prepared : g.Prepared r.key r.target r.trash
  vacant : r.phase = .vacant → g.names.get r.trash = none

/-- The entry of a job is at the trash path, or it was moved to a quarantine name and the
    trash path is empty. -/
structure EntryOwned (job : PurgeRow Place) (e : TrashEntry) : Prop where
  identity_eq : e.identity = job.sourceIdentity
  revision_eq : some e.trashRevision = job.trashRevision
  place : (e.place = job.trashPath ∧ e.phase ≠ .isolated) ∨
    (g.names.get job.trashPath = none ∧ (∃ d id, e.place = (d, .quarantine id)) ∧
      (e.phase = .isolated ∨ e.phase = .ambiguous))

/-- The row of a claimed job is the one that was read, up to its state and times, and is
    not prepared any more. -/
structure WorkOwned (w : PurgeWork) : Prop where
  key_mem : w.key ∈ g.usedKeys
  trash_eq : w.job.trashPath = trashPathForId w.job.targetPath w.key.id
  row : ∀ row, g.jobs.get w.key = some row → row.state ≠ .prepared ∧
    row.trashPath = w.job.trashPath ∧ row.sourceIdentity = w.job.sourceIdentity ∧
    row.trashRevision = w.job.trashRevision
  vacant : ∀ quarantined, w.phase = .completing quarantined →
    g.names.get w.job.trashPath = none
  entry : ∀ e, w.phase = .slicing e → g.EntryOwned w.job e

/-- A sweep never gets to purge anything: an entry it has seen had a row, and once the row
    is gone the path stays empty. -/
structure SweepOwned (w : Sweep) : Prop where
  used : ∃ d, ∃ key ∈ g.usedKeys, w.place = (d, .trash key.id)
  phase : w.phase = .visited ∨
    (w.phase = .unbound ∧ g.names.get w.place = none ∧ ¬ g.Bound w.place)

/-- Keys are determined by their id, rows have the trash path of their key, and every
    occupant of a trash name has a row. -/
structure Sound : Prop where
  key_eq : ∀ k ∈ g.usedKeys, ∀ k' ∈ g.usedKeys, k.id = k'.id → k = k'
  rows : ∀ key row, g.jobs.get key = some row →
    key ∈ g.usedKeys ∧ row.trashPath = trashPathForId row.targetPath key.id
  bound : ∀ d id i, g.names.get (d, .trash id) = some i → g.Bound (d, .trash id)

end Ground

/-- The invariant of the system. -/
structure System.Owned (s : System) : Prop where
  sound : s.ground.Sound
  located : ∀ intent ∈ s.intents, Located s.names s.purged intent.1 intent.2
  deletes : ∀ n t, s.deletes.get n = some t → s.ground.DeleteOwned t
  reconcilers : ∀ n r, s.reconcilers.get n = some r → s.ground.ReconcileOwned r
  works : ∀ n w, s.works.get n = some w → s.ground.WorkOwned w
  sweeps : ∀ n w, s.sweeps.get n = some w → s.ground.SweepOwned w
  deletes_apart : ∀ n m t t', s.deletes.get n = some t → s.deletes.get m = some t' →
    t.key = t'.key → n = m
  reconcilers_apart : ∀ n m r r', s.reconcilers.get n = some r → s.reconcilers.get m = some r' →
    r.key = r'.key → n = m
  apart : ∀ n m t r, s.deletes.get n = some t → s.reconcilers.get m = some r → t.key ≠ r.key

/-! ## Entries leave the trash -/

namespace Ground

/-- Rows and keys stay, and no trash name gets a new occupant. -/
structure Shrinks (g g' : Ground) : Prop where
  jobs_eq : g'.jobs = g.jobs
  usedKeys_eq : g'.usedKeys = g.usedKeys
  names : ∀ d id, g'.names.get (d, .trash id) = none ∨
    g'.names.get (d, .trash id) = g.names.get (d, .trash id)

namespace Shrinks

variable {g g' : Ground} (h : g.Shrinks g')
include h

theorem vacant {d : FileIdentity} {id : Uuid} (hv : g.names.get (d, .trash id) = none) :
    g'.names.get (d, .trash id) = none := by
  rcases h.names d id with hn | heq
  · exact hn
  · rw [heq, hv]

theorem bound_iff {p : Place} : g'.Bound p ↔ g.Bound p := by rw [Bound, Bound, h.jobs_eq]

theorem sound (hs : g.Sound) : g'.Sound where
  key_eq := by rw [h.usedKeys_eq]; exact hs.key_eq
  rows := by rw [h.jobs_eq, h.usedKeys_eq]; exact hs.rows
  bound d id i hi := by
    rw [h.bound_iff]
    rcases h.names d id with hn | heq
    · rw [hn] at hi; cases hi
    · exact hs.bound d id i (heq ▸ hi)

theorem deleteOwned {t : DeleteTask} (ht : g.DeleteOwned t) : g'.DeleteOwned t where
  key_mem := by rw [h.usedKeys_eq]; exact ht.key_mem
  target_eq := by rw [h.jobs_eq]; exact ht.target_eq
  prepared hp := by rw [Prepared, h.jobs_eq]; exact ht.prepared hp
  vacant hp := h.vacant (ht.vacant hp)
  unclear hp := by
    rcases h.names t.target.1 t.key.id with hn | heq
    · exact Or.inl hn
    · exact (ht.unclear hp).imp heq.trans heq.trans

theorem reconcileOwned {r : Reconciler} (hr : g.ReconcileOwned r) : g'.ReconcileOwned r where
  key_mem := by rw [h.usedKeys_eq]; exact hr.key_mem
  trash_eq := hr.trash_eq
  prepared := by rw [Prepared, h.jobs_eq]; exact hr.prepared
  vacant hp := by
    have hv := hr.vacant hp
    rw [hr.trash_eq] at hv ⊢
    exact h.vacant hv

theorem workOwned {w : PurgeWork} (hw : g.WorkOwned w) : g'.WorkOwned w := by
  have hv : g.names.get w.job.trashPath = none → g'.names.get w.job.trashPath = none := by
    rw [hw.trash_eq]
    exact h.vacant
  refine ⟨by rw [h.usedKeys_eq]; exact hw.key_mem, hw.trash_eq, ?_, ?_, ?_⟩
  · rw [h.jobs_eq]; exact hw.row
  · intro qu hp
    exact hv (hw.vacant qu hp)
  · intro e hp
    have he := hw.entry e hp
    exact ⟨he.identity_eq, he.revision_eq, he.place.imp_right (And.imp_left hv)⟩

theorem sweepOwned {w : Sweep} (hw : g.SweepOwned w) : g'.SweepOwned w := by
  obtain ⟨d, key, hk, hpl⟩ := hw.used
  refine ⟨⟨d, key, by rw [h.usedKeys_eq]; exact hk, hpl⟩, hw.phase.imp_right ?_⟩
  rintro ⟨hp, hv, hb⟩
  refine ⟨hp, ?_, by rw [h.bound_iff]; exact hb⟩
  rw [hpl] at hv ⊢
  exact h.vacant hv

end Shrinks

end Ground

namespace System.Owned

variable {s : System}

/-- Entries may leave the trash, whoever moves them. -/
theorem of_shrinks {s' : System} (h : s.Owned) (hg : s.ground.Shrinks s'.ground)
    (hd : s'.deletes = s.deletes) (hrc : s'.reconcilers = s.reconcilers)
    (hwr : s'.works = s.works) (hs : s'.sweeps = s.sweeps)
    (hl : ∀ itn ∈ s'.intents, Located s'.names s'.purged itn.1 itn.2) :
    s'.Owned where
  sound := hg.sound h.sound
  located := hl
  deletes n t ht := hg.deleteOwned (h.deletes n t (hd ▸ ht))
  reconcilers n r hr := hg.reconcileOwned (h.reconcilers n r (hrc ▸ hr))
  works n w hw := hg.workOwned (h.works n w (hwr ▸ hw))
  sweeps n w hw := hg.sweepOwned (h.sweeps n w (hs ▸ hw))
  deletes_apart := by rw [hd]; exact h.deletes_apart
  reconcilers_apart := by rw [hrc]; exact h.reconcilers_apart
  apart := by rw [hd, hrc]; exact h.apart

/-! ## Tasks go on and end -/

theorem endDelete (h : s.Owned) (i : ℕ) : (s.endDelete i).Owned :=
  { h with
    deletes := fun n t ht => h.deletes n t (Table.get_of_get_erase ht).2
    deletes_apart := fun n m t t' ht ht' =>
      h.deletes_apart n m t t' (Table.get_of_get_erase ht).2 (Table.get_of_get_erase ht').2
    apart := fun n m t r ht => h.apart n m t r (Table.get_of_get_erase ht).2 }

theorem endReconciler (h : s.Owned) (i : ℕ) : (s.endReconciler i).Owned :=
  { h with
    reconcilers := fun n r hr => h.reconcilers n r (Table.get_of_get_erase hr).2
    reconcilers_apart := fun n m r r' hr hr' =>
      h.reconcilers_apart n m r r' (Table.get_of_get_erase hr).2 (Table.get_of_get_erase hr').2
    apart := fun n m t r ht hr => h.apart n m t r ht (Table.get_of_get_erase hr).2 }

theorem endWork (h : s.Owned) (i : ℕ) : (s.endWork i).Owned :=
  { h with works := fun n w hw => h.works n w (Table.get_of_get_erase hw).2 }

theorem endSweep (h : s.Owned) (i : ℕ) : (s.endSweep i).Owned :=
  { h with sweeps := fun n w hw => h.sweeps n w (Table.get_of_get_erase hw).2 }

/-- A DELETE whose key no other task has is stored. -/
theorem setDelete (h : s.Owned) {i n : ℕ} {t : DeleteTask} (ht : s.ground.DeleteOwned t)
    (hd : ∀ m t', s.deletes.get m = some t' → t'.key = t.key → m = i)
    (hrc : ∀ m r, s.reconcilers.get m = some r → r.key ≠ t.key) :
    ({ s with nextTask := n, deletes := s.deletes.put i t } : System).Owned :=
  { h with
    deletes := Table.forall_get_put ht h.deletes
    deletes_apart := Table.eq_of_get_put h.deletes_apart hd
    apart := fun n m t' r ht' hr =>
      Table.forall_get_put (P := fun _ t' => t'.key ≠ r.key) (hrc m r hr).symm
        (fun n t' ht' => h.apart n m t' r ht' hr) n t' ht' }

/-- A reconciliation whose key no other task has is stored. -/
theorem setReconciler (h : s.Owned) {i n : ℕ} {r : Reconciler} (hr : s.ground.ReconcileOwned r)
    (hrc : ∀ m r', s.reconcilers.get m = some r' → r'.key = r.key → m = i)
    (hd : ∀ m t, s.deletes.get m = some t → t.key ≠ r.key) :
    ({ s with nextTask := n, reconcilers := s.reconcilers.put i r } : System).Owned :=
  { h with
    reconcilers := Table.forall_get_put hr h.reconcilers
    reconcilers_apart := Table.eq_of_get_put h.reconcilers_apart hrc
    apart := fun n m t r' ht hr' =>
      Table.forall_get_put (P := fun _ r' => t.key ≠ r'.key) (hd n t ht)
        (fun m r' hr' => h.apart n m t r' ht hr') m r' hr' }

theorem putDelete (h : s.Owned) {i : ℕ} {t : DeleteTask} {phase : DeletePhase}
    (hg : s.deletes.get i = some t) (hnw : s.ground.DeleteOwned { t with phase := phase }) :
    (s.putDelete i t phase).Owned :=
  h.setDelete (n := s.nextTask) hnw (fun m t' hm => h.deletes_apart m i t' t hm hg)
    fun m r hr => (h.apart i m t r hg hr).symm

theorem putReconciler (h : s.Owned) {i : ℕ} {r : Reconciler} {phase : ReconcilePhase}
    (hg : s.reconcilers.get i = some r)
    (hnw : s.ground.ReconcileOwned { r with phase := phase }) :
    (s.putReconciler i r phase).Owned :=
  h.setReconciler (n := s.nextTask) hnw (fun m r' hm => h.reconcilers_apart m i r' r hm hg)
    fun m t ht => h.apart m i t r ht hg

theorem putWork (h : s.Owned) {i : ℕ} {w : PurgeWork} {phase : WorkPhase}
    (hnw : s.ground.WorkOwned { w with phase := phase }) : (s.putWork i w phase).Owned :=
  { h with works := Table.forall_get_put hnw h.works }

theorem putSweep (h : s.Owned) {i : ℕ} {place : Place} {ph : SweepPhase}
    (hnw : s.ground.SweepOwned ⟨place, ph⟩) : (s.putSweep i place ph).Owned :=
  { h with sweeps := Table.forall_get_put hnw h.sweeps }

/-! ## Rows -/

/-- A row whose state and times may have changed, but not whether it is prepared. -/
structure SameRow (row row' : PurgeRow Place) : Prop where
  targetPath : row'.targetPath = row.targetPath
  trashPath : row'.trashPath = row.trashPath
  sourceIdentity : row'.sourceIdentity = row.sourceIdentity
  trashRevision : row'.trashRevision = row.trashRevision
  prepared : row'.state = .prepared ↔ row.state = .prepared

/-- No running task needs the intent of `key`. -/
def Released (s : System) (key : PurgeJobKey) : Prop :=
  (∀ n t, s.deletes.get n = some t → t.key = key → t.phase = .ready) ∧
    ∀ n r, s.reconcilers.get n = some r → r.key ≠ key

/-- A row that is not prepared is needed by no DELETE and no reconciliation. -/
theorem released (h : s.Owned) {key : PurgeJobKey}
    (hrw : ∀ row, s.jobs.get key = some row → row.state ≠ .prepared) : Released s key := by
  constructor
  · rintro n t ht rfl
    by_contra hp
    obtain ⟨row, hg, hs, -⟩ := (h.deletes n t ht).prepared hp
    exact hrw row hg hs
  · rintro n r hr rfl
    obtain ⟨row, hg, hs, -⟩ := (h.reconcilers n r hr).prepared
    exact hrw row hg hs

/-- Updates of one row leave the other intents as they are. -/
theorem prepared_of_ne {key key' : PurgeJobKey} {t trash : Place} {jobs : PurgeJobs Place}
    (hj : ∀ k, k ≠ key → jobs.get k = s.jobs.get k) (hne : key' ≠ key)
    (hp : s.ground.Prepared key' t trash) :
    (⟨s.names, jobs, s.usedKeys⟩ : Ground).Prepared key' t trash := by
  obtain ⟨row, hrw, hr⟩ := hp
  exact ⟨row, (hj key' hne).trans hrw, hr⟩

/-- The rows change, but no paths, no intent that a running task needs, and nothing that purge work
    relies on. -/
theorem of_jobs (h : s.Owned) {jobs : PurgeJobs Place}
    (hr : ∀ k row', jobs.get k = some row' → ∃ row, s.jobs.get k = some row ∧
      row'.targetPath = row.targetPath ∧ row'.trashPath = row.trashPath)
    (hp : ∀ {k t trash}, ¬Released s k → s.ground.Prepared k t trash →
      (⟨s.names, jobs, s.usedKeys⟩ : Ground).Prepared k t trash)
    (hb : ∀ {p i}, s.names.get p = some i → s.ground.Bound p →
      (⟨s.names, jobs, s.usedKeys⟩ : Ground).Bound p)
    (hw : ∀ n w, s.works.get n = some w → ∀ row', jobs.get w.key = some row' →
      row'.state ≠ .prepared ∧ row'.trashPath = w.job.trashPath ∧
        row'.sourceIdentity = w.job.sourceIdentity ∧ row'.trashRevision = w.job.trashRevision) :
    ({ s with jobs := jobs } : System).Owned := by
  refine { h with sound := ⟨h.sound.key_eq, ?_, ?_⟩, deletes := ?_, reconcilers := ?_,
                  works := ?_, sweeps := ?_ }
  · intro k row' hg
    obtain ⟨row, hrw, htg, htr⟩ := hr k row' hg
    rw [htg, htr]
    exact h.sound.rows k row hrw
  · exact fun d id i hi => hb hi (h.sound.bound d id i hi)
  · intro n t ht
    have ho := h.deletes n t ht
    refine ⟨ho.key_mem, ?_, ?_, ho.vacant, ho.unclear⟩
    · intro row' hg
      obtain ⟨row, hrw, htg, -⟩ := hr t.key row' hg
      exact htg.trans (ho.target_eq row hrw)
    · exact fun hph => hp (fun hf => hph (hf.1 n t ht rfl)) (ho.prepared hph)
  · intro n r hg
    have ho := h.reconcilers n r hg
    exact ⟨ho.key_mem, ho.trash_eq, hp (fun hf => hf.2 n r hg rfl) ho.prepared, ho.vacant⟩
  · intro n w hg
    have ho := h.works n w hg
    exact ⟨ho.key_mem, ho.trash_eq, hw n w hg, ho.vacant, fun e hph => ⟨(ho.entry e hph).identity_eq,
      (ho.entry e hph).revision_eq, (ho.entry e hph).place⟩⟩
  · intro n w hg
    have ho := h.sweeps n w hg
    refine ⟨ho.used, ho.phase.imp_right fun ⟨hph, hv, hn⟩ => ⟨hph, hv, ?_⟩⟩
    rintro ⟨k, row', hg', htr⟩
    obtain ⟨row, hrw, -, ht⟩ := hr k row' hg'
    exact hn ⟨k, row, hrw, ht.symm.trans htr⟩

/-- Claims, retries and recovery change rows in place. -/
theorem of_rows_kept (h : s.Owned) {jobs : PurgeJobs Place}
    (hold : ∀ key row', jobs.get key = some row' →
      ∃ row, s.jobs.get key = some row ∧ SameRow row row')
    (hn : ∀ key row, s.jobs.get key = some row →
      ∃ row', jobs.get key = some row' ∧ SameRow row row') :
    ({ s with jobs := jobs } : System).Owned := by
  refine h.of_jobs ?_ ?_ ?_ ?_
  · intro k row' hg
    obtain ⟨row, hrw, hs⟩ := hold k row' hg
    exact ⟨row, hrw, hs.targetPath, hs.trashPath⟩
  · rintro key t trash - ⟨row, hrw, hst, htg, htr⟩
    obtain ⟨row', hr', hs⟩ := hn key row hrw
    exact ⟨row', hr', hs.prepared.mpr hst, hs.targetPath.trans htg, hs.trashPath.trans htr⟩
  · rintro p i - ⟨key, row, hrw, htr⟩
    obtain ⟨row', hr', hs⟩ := hn key row hrw
    exact ⟨key, row', hr', hs.trashPath.trans htr⟩
  · intro n w hw row' hr'
    obtain ⟨row, hrw, hs⟩ := hold w.key row' hr'
    obtain ⟨hst, htr, hid, hrv⟩ := (h.works n w hw).row row hrw
    exact ⟨fun hp => hst (hs.prepared.mp hp), hs.trashPath.trans htr,
      hs.sourceIdentity.trans hid, hs.trashRevision.trans hrv⟩

/-- A row is removed once nothing is left at its trash path. -/
theorem erase (h : s.Owned) {key : PurgeJobKey} (hf : Released s key)
    (hvc : ∀ row, s.jobs.get key = some row → s.names.get row.trashPath = none) :
    ({ s with jobs := s.jobs.erase key } : System).Owned := by
  have hj : ∀ k, k ≠ key → (s.jobs.erase key).get k = s.jobs.get k := by
    intro k hk
    rw [Table.get_erase, if_neg hk]
  refine h.of_jobs ?_ ?_ ?_ ?_
  · exact fun k row hrw => ⟨row, (Table.get_of_get_erase hrw).2, rfl, rfl⟩
  · exact fun hk => prepared_of_ne hj fun heq => hk (heq ▸ hf)
  · rintro p i hi ⟨k, row, hrw, htr⟩
    refine ⟨k, row, (hj k ?_).trans hrw, htr⟩
    -- The row that goes has an empty trash path.
    rintro rfl
    have hn := hvc row hrw
    rw [htr, hi] at hn
    cases hn
  · exact fun n w hw row hrw => (h.works n w hw).row row (Table.get_of_get_erase hrw).2

/-- The row of a moved object becomes ready. No work can be on it yet. -/
theorem markReady (h : s.Owned) {key : PurgeJobKey} {row row' : PurgeRow Place}
    (hf : Released s key) (hg : s.jobs.get key = some row) (hs : row.state = .prepared)
    (htg : row'.targetPath = row.targetPath) (htr : row'.trashPath = row.trashPath) :
    ({ s with jobs := s.jobs.put key row' } : System).Owned := by
  have hj : ∀ k, k ≠ key → (s.jobs.put key row').get k = s.jobs.get k := by
    intro k hk
    rw [Table.get_put, if_neg hk]
  refine h.of_jobs ?_ ?_ ?_ ?_
  · intro k r hr
    rcases Table.get_put_cases hr with ⟨rfl, rfl⟩ | ⟨-, hr⟩
    · exact ⟨row, hg, htg, htr⟩
    · exact ⟨r, hr, rfl, rfl⟩
  · exact fun hk => prepared_of_ne hj fun heq => hk (heq ▸ hf)
  · rintro p i - ⟨k, r, hr, hp⟩
    by_cases hk : k = key
    · subst hk
      obtain rfl : row = r := Option.some.inj (hg.symm.trans hr)
      exact ⟨k, row', by rw [Table.get_put, if_pos rfl], htr.trans hp⟩
    · exact ⟨k, r, (hj k hk).trans hr, hp⟩
  · intro n w hw r hr
    rcases Table.get_put_cases hr with ⟨hk, rfl⟩ | ⟨-, hr⟩
    · exact absurd hs ((h.works n w hw).row row (hk ▸ hg)).1
    · exact (h.works n w hw).row r hr

/-! ## The rename of a DELETE -/

/-- Only the DELETE that recorded an intent can fill its trash name: every other task at
    that name would have the same key. -/
theorem moveToTrash (h : s.Owned) {names : Table Place FileIdentity} {stat : FileIdentity → Stat}
    {i : ℕ} {t : DeleteTask} {ph : DeletePhase} (hg : s.deletes.get i = some t)
    (hs : t.phase = .started) (hph : ph = .renamed ∨ ph = .renameFailed)
    (hob : names.get t.trash = some t.expected)
    (hnm : ∀ p, p ≠ t.trash → names.get p = none ∨ names.get p = s.names.get p)
    (hl : ∀ itn ∈ s.intents, Located names s.purged itn.1 itn.2) :
    (({ s with names := names, stat := stat } : System).putDelete i t ph).Owned := by
  have ht := h.deletes i t hg
  have hpr := ht.prepared (by rw [hs]; decide)
  have hbn : s.ground.Bound t.trash := by
    obtain ⟨row, hrw, -, -, htr⟩ := hpr
    exact ⟨t.key, row, hrw, htr⟩
  have hvc : ∀ {p}, p ≠ t.trash → s.names.get p = none → names.get p = none := by
    intro p hp hnn
    exact (hnm p hp).elim id fun heq => heq.trans hnn
  -- A trash name of another key is another name.
  have hne : ∀ {k : PurgeJobKey} {tgt : Place}, k ∈ s.usedKeys → k ≠ t.key →
      trashPathForId tgt k.id ≠ t.trash := by
    intro k tgt hk hky heq
    refine hky (h.sound.key_eq k hk t.key ht.key_mem ?_)
    simpa [DeleteTask.trash, trashPathForId] using congrArg Prod.snd heq
  -- The phase of the task first, with the old names: it has few obligations.
  have hpt : (s.putDelete i t ph).Owned := h.putDelete hg ⟨ht.key_mem, ht.target_eq, fun _ => hpr,
      fun hp => by rcases hph with rfl | rfl <;> simp at hp,
      fun _ => Or.inl (ht.vacant (Or.inr (Or.inl hs)))⟩
  refine { hpt with sound := ⟨h.sound.key_eq, h.sound.rows, ?_⟩, located := hl,
                     deletes := ?_, reconcilers := ?_, works := ?_, sweeps := ?_ }
  · intro d id j hj
    have hj' : names.get (d, .trash id) = some j := hj
    by_cases hp : (d, Name.trash id) = t.trash
    · rw [hp]
      exact hbn
    · rcases hnm _ hp with hnn | heq
      · rw [hnn] at hj'; cases hj'
      · exact h.sound.bound d id j (heq.symm.trans hj')
  · intro n t' hn
    have ho := hpt.deletes n t' hn
    rcases Table.get_put_cases hn with ⟨rfl, rfl⟩ | ⟨hni, hn⟩
    · exact ⟨ho.key_mem, ho.target_eq, ho.prepared,
        fun hp => by rcases hph with rfl | rfl <;> simp at hp, fun _ => Or.inr hob⟩
    have hky : t'.key ≠ t.key := fun hk => hni (h.deletes_apart n i t' t hn hg hk)
    have hot : t'.trash ≠ t.trash := hne ho.key_mem hky
    refine ⟨ho.key_mem, ho.target_eq, ho.prepared, fun hp => hvc hot (ho.vacant hp), ?_⟩
    intro hp
    rcases hnm _ hot with hnn | heq
    · exact Or.inl hnn
    · exact (ho.unclear hp).imp heq.trans heq.trans
  · intro n r hr
    have ho := h.reconcilers n r hr
    have hot : r.trash ≠ t.trash := by
      rw [ho.trash_eq]
      exact hne ho.key_mem (h.apart i n t r hg hr).symm
    exact ⟨ho.key_mem, ho.trash_eq, ho.prepared, fun hp => hvc hot (ho.vacant hp)⟩
  · intro n w hw
    have ho := h.works n w hw
    -- The row of this DELETE is prepared, so no work is on it.
    have hky : w.key ≠ t.key := by
      intro hk
      obtain ⟨row, hrw, hst, -⟩ := hpr
      exact (ho.row row (by rw [hk]; exact hrw)).1 hst
    have hot : w.job.trashPath ≠ t.trash := by
      rw [ho.trash_eq]
      exact hne ho.key_mem hky
    refine ⟨ho.key_mem, ho.trash_eq, ho.row, fun q hp => hvc hot (ho.vacant q hp), ?_⟩
    intro e hp
    have he := ho.entry e hp
    exact ⟨he.identity_eq, he.revision_eq, he.place.imp_right (And.imp_left (hvc hot))⟩
  · intro n w hw
    have ho := h.sweeps n w hw
    refine ⟨ho.used, ho.phase.imp_right fun ⟨hp, hv, hb⟩ => ⟨hp, ?_, hb⟩⟩
    exact hvc (fun heq => hb (by rw [heq]; exact hbn)) hv

end System.Owned

end DufsRam.Purge
