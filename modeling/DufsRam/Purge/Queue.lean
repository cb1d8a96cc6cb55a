import DufsRam.Lib.Mirror
import DufsRam.Purge.Safety

/-!
# The queues of the purge worker

Model of `run_purge_worker` (`purge.rs`, lines 186-300) with the calls that move a claimed job between
the database, the queue `pending` and the queue `claimed_retries` (lines 328-492 and 586-610). Each
call that waits is one step, and other tasks record, release and ready their intents between any two
steps. What the file system answers is chosen by the event. A state-store call that answers an error
has no effect.

Results:
* `Worker.Owned.step`: each step keeps the correspondence of rows and queues.
* `claimed_rows_queued`: at every loop boundary the claimed rows are the queued jobs.
-/

namespace DufsRam.Purge.Queue

open StateStore

/-! ## The worker -/

/-- `DELETE_PURGE_ACTIVE_CAPACITY` (line 17). -/
def deletePurgeActiveCapacity : ℕ := 64

/-- `StoredPurgeJob`: the key and the row that was read. -/
abbrev Job (π : Type) := PurgeJobKey × PurgeRow π

/-- `PurgeTask` (lines 36-39). `τ` is the type of open trash entries. -/
inductive PurgeTask (π τ : Type) where
  | durable (job : Job π) (entry : τ)
  | orphan (entry : τ)

/-- The job of a durable task. -/
def PurgeTask.job? {π τ : Type} : PurgeTask π τ → Option (Job π)
  | .durable job _ => some job
  | .orphan _ => none

/-- `ClaimedPurgeRetry` (lines 80-84); times are in milliseconds. -/
structure ClaimedPurgeRetry (π : Type) where
  due : ℕ
  job : Job π
  localFailures : ℕ

/-- `purge_retry_delay` (lines 636-642). -/
def purgeRetryDelay (failures : ℕ) : ℕ := min (100 * 2 ^ min (failures - 1) 16) 30000

/-- `schedule_claimed_purge_retry` (lines 586-610): after every retry that is due no later. -/
def scheduleClaimedPurgeRetry {π : Type} (retries : List (ClaimedPurgeRetry π)) (job : Job π)
    (localFailures now : ℕ) : List (ClaimedPurgeRetry π) :=
  let localFailures := max localFailures 1
  let retry : ClaimedPurgeRetry π := ⟨now + purgeRetryDelay localFailures, job, localFailures⟩
  retries.insertIdx (retries.findIdx fun queued => decide (retry.due < queued.due)) retry

/-- Where the work on a job came from, and where the loop goes on after it. -/
inductive Origin where
  | retry (localFailures : ℕ)
  | claim
  | process

/-- The failures with which the job is scheduled again (lines 219-223, 242 and 254). -/
def Origin.localFailures : Origin → ℕ
  | .retry localFailures => min (localFailures + 1) 4294967295
  | .claim => 1
  | .process => 1

/-- The points of the loop at which the worker waits. -/
inductive Phase (π τ : Type) where
  | top
  | receive
  | retry
  | reload (retry : ClaimedPurgeRetry π)
  | opening (job : Job π) (origin : Origin)
  | quarantining (job : Job π) (origin : Origin)
  /-- `complete_purge_job`; after a quarantine a lost row is an error. -/
  | completing (job : Job π) (origin : Origin) (quarantined : Bool)
  | deferring (job : Job π) (origin : Origin)
  | claim
  | take
  | slice (job : Job π)
  | orphan
  | wait
  | stopped

/-- What follows when a job is settled or scheduled. -/
def Origin.next {π τ : Type} : Origin → Phase π τ
  | .retry _ | .claim => .claim
  | .process => .top

/-- The worker and the table of purge jobs. -/
structure Worker (π τ : Type) where
  rows : PurgeJobs π
  pending : List (PurgeTask π τ)
  claimedRetries : List (ClaimedPurgeRetry π)
  phase : Phase π τ

/-! ## Steps -/

/-- `PurgeSignal` (lines 31-34). -/
inductive PurgeSignal (τ : Type) where
  | wake
  | orphan (entry : τ)

/-- What `try_recv` answers. -/
inductive TryRecv (τ : Type) where
  | signal (signal : PurgeSignal τ)
  | empty
  | disconnected

/-- The branch that `select!` takes (lines 285-298). -/
inductive Selected (τ : Type) where
  | cancelled
  | received (signal : Option (PurgeSignal τ))
  | elapsed

/-- An entry of the trash with the identity that is compared (lines 630-634). -/
structure Captured (τ : Type) where
  identity : FileIdentity
  isDirectory : Bool
  entry : τ

/-- What the file system answers in `open_purge_work`: the path cannot be resolved, or the entry is
    captured, is not there, or cannot be captured (`true` for `InvalidData`). -/
inductive OpenResult (τ : Type) where
  | unresolved
  | capture (captured : Except Bool (Option (Captured τ)))

/-- What a slice answers; `error true` is `InvalidData`. -/
inductive SliceAnswer (τ : Type) where
  | complete
  | pending (entry : τ)
  | error (invalidData : Bool)

/-- The steps of the worker, and those of other tasks on the table. -/
inductive Event (π τ : Type) where
  | begin (cancelled : Bool)
  | tryRecv (result : TryRecv τ)
  | checkRetry (now : ℕ)
  | reload (storeFault : Bool) (now : ℕ)
  | openWork (result : OpenResult τ) (now : ℕ)
  | quarantine (quarantined : Bool) (now : ℕ)
  | complete (storeFault : Bool) (now : ℕ)
  | defer (storeFault : Bool) (storeNow : ℤ) (now : ℕ)
  | claim (cancelled storeFault : Bool) (storeNow : ℤ)
  | take
  | slice (answer : SliceAnswer τ)
  | sliceOrphan (answer : SliceAnswer τ)
  | select (selected : Selected τ)
  | prepare (limits : PurgeLimits) (key : PurgeJobKey) (targetPath trashPath : π)
      (sourceIdentity : FileIdentity) (isDirectory : Bool) (now : ℤ)
  | markReady (key : PurgeJobKey) (revision : Digest) (now : ℤ)
  | remove (key : PurgeJobKey)

namespace Worker

variable {π τ : Type} (w : Worker π τ)

/-- `pending.len() + claimed_retries.len() < DELETE_PURGE_ACTIVE_CAPACITY`. -/
def hasRoom : Bool :=
  decide (w.pending.length + w.claimedRetries.length < deletePurgeActiveCapacity)

/-- `pending.push_back`. -/
def push (task : PurgeTask π τ) (phase : Phase π τ) : Worker π τ :=
  { w with
    pending := w.pending ++ [task]
    phase := phase }

/-- The job could not record its next state and is kept for a retry in this process. -/
def failed (job : Job π) (origin : Origin) (now : ℕ) : Worker π τ :=
  { w with
    claimedRetries := scheduleClaimedPurgeRetry w.claimedRetries job origin.localFailures now
    phase := origin.next }

/-- A signal that was received. -/
def signalled (phase : Phase π τ) : PurgeSignal τ → Worker π τ
  | .wake => { w with phase := phase }
  | .orphan entry => w.push (.orphan entry) phase

/-- The loop at lines 197-206; it ends when there is no room. -/
def tryRecv (result : TryRecv τ) : Worker π τ :=
  if w.hasRoom then
    match result with
    | .signal signal => w.signalled .receive signal
    | .empty => { w with phase := .retry }
    | .disconnected => { w with phase := .stopped }
  else { w with phase := .retry }

/-- The test of the first retry (lines 208-215). -/
def checkRetry (now : ℕ) : Worker π τ :=
  match w.claimedRetries with
  | [] => { w with phase := .claim }
  | retry :: rest =>
    if w.pending.length < deletePurgeActiveCapacity ∧ retry.due ≤ now then
      { w with
        claimedRetries := rest
        phase := .reload retry }
    else { w with phase := .claim }

/-- `retry_claimed_purge_work` (lines 328-338) up to `open_purge_work`. -/
def reload (retry : ClaimedPurgeRetry π) (storeFault : Bool) (now : ℕ) : Worker π τ :=
  let origin := Origin.retry retry.localFailures
  if storeFault then w.failed retry.job origin now
  else
    match w.rows.get retry.job.1 with
    | some row =>
      { w with
        phase := if row.state = .claimed then .opening (retry.job.1, row) origin else origin.next }
    | none => { w with phase := origin.next }

/-- `purge_identity_matches` (lines 630-634). -/
def purgeIdentityMatches (captured : Captured τ) (job : Job π) : Bool :=
  decide (captured.identity = job.2.sourceIdentity ∧ captured.isDirectory = job.2.isDirectory)

/-- `open_purge_work` (lines 340-398) up to the call that its result leads to. -/
def openWork (job : Job π) (origin : Origin) (result : OpenResult τ) (now : ℕ) : Worker π τ :=
  match result with
  | .unresolved => w.failed job origin now
  | .capture captured =>
    match job.2.trashRevision, captured with
    | none, _ => { w with phase := .quarantining job origin }
    | some _, .ok (some captured) =>
      if purgeIdentityMatches captured job then w.push (.durable job captured.entry) origin.next
      else { w with phase := .quarantining job origin }
    | some _, .ok none => { w with phase := .completing job origin false }
    | some _, .error true => { w with phase := .quarantining job origin }
    | some _, .error false => { w with phase := .deferring job origin }

/-- `complete_purge_job` and what its answer leads to (lines 378-385, 410-422 and 465-470). -/
def complete (job : Job π) (origin : Origin) (quarantined storeFault : Bool) (now : ℕ) :
    Worker π τ :=
  if storeFault then w.failed job origin now
  else
    let (completed, rows) := completePurgeJob w.rows job.1
    let w := { w with rows := rows }
    if completed || !quarantined then { w with phase := origin.next } else w.failed job origin now

/-- `defer_purge_job` (lines 473-492; `state_store/purge.rs`, lines 222-246). -/
def defer (job : Job π) (origin : Origin) (storeFault : Bool) (storeNow : ℤ) (now : ℕ) :
    Worker π τ :=
  match storeFault, expirationTime storeNow (purgeRetryDelay (min (job.2.attempts + 1) 4294967295))
    with
  | false, .ok nextAttempt =>
    let (deferred, rows) := retryPurgeJob nextAttempt w.rows job.1
    let w := { w with rows := rows }
    if deferred then { w with phase := origin.next } else w.failed job origin now
  | _, _ => w.failed job origin now

/-- One round of the loop that claims jobs (lines 227-244). -/
def claim (cancelled storeFault : Bool) (storeNow : ℤ) : Worker π τ :=
  if w.hasRoom then
    if cancelled then { w with phase := .stopped }
    else if storeFault then { w with phase := .take }
    else
      match claimDuePurgeJob storeNow w.rows with
      | .error _ => { w with phase := .take }
      | .ok (none, rows) =>
        { w with
          rows := rows
          phase := .take }
      | .ok (some job, rows) =>
        { w with
          rows := rows
          phase := .opening job .claim }
  else { w with phase := .take }

/-- `pending.pop_front` (lines 246-278). -/
def take : Worker π τ :=
  match w.pending with
  | [] => { w with phase := .wait }
  | .durable job _ :: rest =>
    { w with
      pending := rest
      phase := .slice job }
  | .orphan _ :: rest =>
    { w with
      pending := rest
      phase := .orphan }

/-- `process_purge_work` (lines 400-441) up to the call that the result of the slice leads to. -/
def slice (job : Job π) : SliceAnswer τ → Worker π τ
  | .complete => { w with phase := .completing job .process false }
  | .pending entry => w.push (.durable job entry) .top
  | .error true => { w with phase := .quarantining job .process }
  | .error false => { w with phase := .deferring job .process }

/-- A slice of an orphan (lines 257-274). -/
def sliceOrphan : SliceAnswer τ → Worker π τ
  | .pending entry => w.push (.orphan entry) .top
  | _ => { w with phase := .top }

/-- The wait at the end of the loop (lines 285-298); a signal is received only if there is room. -/
def select : Selected τ → Option (Worker π τ)
  | .cancelled => some { w with phase := .stopped }
  | .received signal =>
    if w.hasRoom then
      match signal with
      | some signal => some (w.signalled .top signal)
      | none => some { w with phase := .stopped }
    else none
  | .elapsed => some { w with phase := .top }

/-- One step. Steps of other tasks are possible at any time. -/
def step [DecidableEq π] (w : Worker π τ) : Event π τ → Option (Worker π τ)
  | .begin cancelled =>
    match w.phase with
    | .top => some { w with phase := if cancelled then .stopped else .receive }
    | _ => none
  | .tryRecv result =>
    match w.phase with
    | .receive => some (w.tryRecv result)
    | _ => none
  | .checkRetry now =>
    match w.phase with
    | .retry => some (w.checkRetry now)
    | _ => none
  | .reload storeFault now =>
    match w.phase with
    | .reload retry => some (w.reload retry storeFault now)
    | _ => none
  | .openWork result now =>
    match w.phase with
    | .opening job origin => some (w.openWork job origin result now)
    | _ => none
  | .quarantine quarantined now =>
    match w.phase with
    | .quarantining job origin =>
      some (if quarantined then { w with phase := .completing job origin true }
        else w.failed job origin now)
    | _ => none
  | .complete storeFault now =>
    match w.phase with
    | .completing job origin quarantined => some (w.complete job origin quarantined storeFault now)
    | _ => none
  | .defer storeFault storeNow now =>
    match w.phase with
    | .deferring job origin => some (w.defer job origin storeFault storeNow now)
    | _ => none
  | .claim cancelled storeFault storeNow =>
    match w.phase with
    | .claim => some (w.claim cancelled storeFault storeNow)
    | _ => none
  | .take =>
    match w.phase with
    | .take => some w.take
    | _ => none
  | .slice answer =>
    match w.phase with
    | .slice job => some (w.slice job answer)
    | _ => none
  | .sliceOrphan answer =>
    match w.phase with
    | .orphan => some (w.sliceOrphan answer)
    | _ => none
  | .select selected =>
    match w.phase with
    | .wait => w.select selected
    | _ => none
  | .prepare limits key targetPath trashPath sourceIdentity isDirectory now =>
    let row := PurgeRow.prepared targetPath trashPath sourceIdentity isDirectory now
    some { w with rows := (preparePurgeJob limits w.rows key row).2 }
  | .markReady key revision now => some { w with rows := (markPurgeJobReady now w.rows key revision).2 }
  | .remove key => some { w with rows := (removePurgeJob w.rows key).2 }

end Worker

/-! ## The retry queue -/

section Schedule

variable {π : Type}

/-- Put an element before the first one that is due later. -/
theorem schedule_cons (retry qd : ClaimedPurgeRetry π) (rest : List (ClaimedPurgeRetry π)) :
    (qd :: rest).insertIdx
        ((qd :: rest).findIdx fun qd => decide (retry.due < qd.due)) retry =
      if retry.due < qd.due then retry :: qd :: rest
      else qd ::
        rest.insertIdx (rest.findIdx fun qd => decide (retry.due < qd.due)) retry := by
  rw [List.findIdx_cons]
  split_ifs with hd
  · simp [hd]
  · simp [hd]

theorem insert_perm (r : ClaimedPurgeRetry π) (retries : List (ClaimedPurgeRetry π)) :
    (retries.insertIdx (retries.findIdx fun qd => decide (r.due < qd.due)) r).Perm
      (r :: retries) :=
  List.perm_insertIdx r retries List.findIdx_le_length

theorem insert_sorted (r : ClaimedPurgeRetry π) {retries : List (ClaimedPurgeRetry π)}
    (h : retries.Pairwise fun a b => a.due ≤ b.due) :
    (retries.insertIdx (retries.findIdx fun qd => decide (r.due < qd.due))
      r).Pairwise fun a b => a.due ≤ b.due := by
  induction retries with
  | nil => exact List.pairwise_singleton _ _
  | cons qd rest ih =>
    obtain ⟨hf, hr⟩ := List.pairwise_cons.mp h
    rw [schedule_cons]
    split_ifs with hd
    · refine List.pairwise_cons.mpr ⟨fun other ho => ?_, h⟩
      obtain rfl | ho := List.mem_cons.mp ho
      · exact hd.le
      · exact hd.le.trans (hf other ho)
    · refine List.pairwise_cons.mpr ⟨fun other ho => ?_, ih hr⟩
      obtain rfl | ho := List.mem_cons.mp ((insert_perm r rest).mem_iff.mp ho)
      · exact not_lt.mp hd
      · exact hf other ho

variable (retries : List (ClaimedPurgeRetry π)) (job : Job π) (localFailures now : ℕ)

theorem schedule_jobs : ((scheduleClaimedPurgeRetry retries job localFailures now).map (·.job)).Perm
      (job :: retries.map (·.job)) :=
  (insert_perm _ retries).map _

theorem schedule_length :
    (scheduleClaimedPurgeRetry retries job localFailures now).length = retries.length + 1 :=
  (insert_perm _ retries).length_eq

end Schedule

/-! ## Rows and queues -/

namespace Phase

variable {π τ : Type}

/-- The job that the call at this point is about. -/
def held : Phase π τ → List (Job π)
  | .reload first => [first.job]
  | .opening job _ | .quarantining job _ | .completing job _ _ | .deferring job _ | .slice job => [job]
  | _ => []

/-- How many tasks were taken out of the queues. -/
def inHand : Phase π τ → ℕ
  | .orphan => 1
  | phase => phase.held.length

end Phase

@[simp] theorem Origin.held_next {π τ : Type} (origin : Origin) :
    (origin.next : Phase π τ).held = [] := by
  cases origin <;> rfl

@[simp] theorem Origin.inHand_next {π τ : Type} (origin : Origin) :
    (origin.next : Phase π τ).inHand = 0 := by
  cases origin <;> rfl

namespace Worker

variable {π τ : Type} {w : Worker π τ}

/-- The jobs of the durable tasks and of the retries. -/
def queued (w : Worker π τ) : List (Job π) :=
  w.pending.filterMap PurgeTask.job? ++ w.claimedRetries.map (·.job)

/-- The claimed rows are the jobs that the worker holds, which fit into its queues. -/
structure Owned (w : Worker π τ) : Prop where
  rows : w.rows.Mirrors (·.state = .claimed) (w.phase.held ++ w.queued)
  capacity : w.pending.length + w.claimedRetries.length + w.phase.inHand ≤ deletePurgeActiveCapacity
  sorted : w.claimedRetries.Pairwise fun a b => a.due ≤ b.due

variable {phase : Phase π τ} {job : Job π} {origin : Origin}

/-- Steps of other tasks and settled jobs. -/
theorem Owned.with_rows (h : w.Owned) {rows : PurgeJobs π}
    (hr : rows.Mirrors (·.state = .claimed) (phase.held ++ w.queued))
    (hh : phase.inHand ≤ w.phase.inHand) : { w with rows := rows, phase := phase }.Owned where
  rows := hr
  capacity := by
    have := h.capacity
    show w.pending.length + w.claimedRetries.length + phase.inHand ≤ _
    omega
  sorted := h.sorted

theorem Owned.advance (h : w.Owned) (hh : phase.held = w.phase.held)
    (hhn : phase.inHand ≤ w.phase.inHand) : { w with phase := phase }.Owned :=
  h.with_rows (by rw [hh]; exact h.rows) hhn

/-- A held job joins the queue of tasks. -/
theorem Owned.push_durable (h : w.Owned) (hh : w.phase.held = [job]) (hhn : w.phase.inHand = 1)
    (e : τ) (hn : phase.held = []) (hnn : phase.inHand = 0) :
    (w.push (.durable job e) phase).Owned where
  rows := by
    have hr := h.rows
    rw [hh] at hr
    show w.rows.Mirrors _ (phase.held ++
      ((w.pending ++ [PurgeTask.durable job e]).filterMap PurgeTask.job? ++
        w.claimedRetries.map (·.job)))
    rw [hn, List.filterMap_append, List.nil_append, List.append_assoc]
    have hp : (job :: w.queued).Perm
        (w.pending.filterMap PurgeTask.job? ++ job :: w.claimedRetries.map (·.job)) :=
      List.perm_middle.symm
    exact hr.perm hp
  capacity := by
    have := h.capacity
    show (w.pending ++ [_]).length + w.claimedRetries.length + phase.inHand ≤ _
    rw [List.length_append, List.length_singleton]
    omega
  sorted := h.sorted

/-- An orphan joins the queue of tasks. -/
theorem Owned.push_orphan (h : w.Owned) (e : τ) (hh : phase.held = w.phase.held)
    (hr : w.pending.length + w.claimedRetries.length + 1 + phase.inHand ≤
      deletePurgeActiveCapacity) : (w.push (.orphan e) phase).Owned where
  rows := by
    show w.rows.Mirrors _ (phase.held ++
      ((w.pending ++ [PurgeTask.orphan e]).filterMap PurgeTask.job? ++
        w.claimedRetries.map (·.job)))
    rw [hh, List.filterMap_append]
    show w.rows.Mirrors _ (_ ++ (_ ++ [] ++ _))
    rw [List.append_nil]
    exact h.rows
  capacity := by
    show (w.pending ++ [_]).length + w.claimedRetries.length + phase.inHand ≤ _
    rw [List.length_append, List.length_singleton]
    omega
  sorted := h.sorted

/-- A held job joins the queue of retries. -/
theorem Owned.failed (h : w.Owned) (hh : w.phase.held = [job]) (hhn : w.phase.inHand = 1)
    (origin : Origin) (now : ℕ) :
    (w.failed job origin now).Owned where
  rows := by
    have hr := h.rows
    rw [hh] at hr
    show w.rows.Mirrors _ ((origin.next : Phase π τ).held ++ (w.pending.filterMap PurgeTask.job? ++
      (scheduleClaimedPurgeRetry w.claimedRetries job origin.localFailures now).map (·.job)))
    rw [Origin.held_next, List.nil_append]
    have hp : (job :: w.queued).Perm
        (w.pending.filterMap PurgeTask.job? ++ job :: w.claimedRetries.map (·.job)) :=
      List.perm_middle.symm
    have hj := schedule_jobs w.claimedRetries job origin.localFailures now
    exact hr.perm (hp.trans (hj.symm.append_left _))
  capacity := by
    have := h.capacity
    show w.pending.length + (scheduleClaimedPurgeRetry _ _ _ _).length +
      (origin.next : Phase π τ).inHand ≤ _
    rw [schedule_length, Origin.inHand_next]
    omega
  sorted := insert_sorted _ h.sorted

theorem Owned.signalled (h : w.Owned) (hr : w.hasRoom = true) (hh : phase.held = w.phase.held)
    (hhn : phase.inHand = 0) (signal : PurgeSignal τ) :
    (w.signalled phase signal).Owned := by
  cases signal with
  | wake => exact h.advance hh (by omega)
  | orphan e =>
    refine h.push_orphan e hh ?_
    have := of_decide_eq_true hr
    omega

/-! ## One step -/

theorem Owned.tryRecv (h : w.Owned) (hp : w.phase = .receive) (r : TryRecv τ) :
    (w.tryRecv r).Owned := by
  have hh : (Phase.receive : Phase π τ).held = w.phase.held := by rw [hp]
  unfold Worker.tryRecv
  split_ifs with hr
  · split
    · exact h.signalled hr hh rfl _
    · exact h.advance hh (Nat.zero_le _)
    · exact h.advance hh (Nat.zero_le _)
  · exact h.advance hh (Nat.zero_le _)

theorem Owned.checkRetry (h : w.Owned) (hp : w.phase = .retry) (now : ℕ) :
    (w.checkRetry now).Owned := by
  have hh : w.phase.held = [] := by rw [hp]; rfl
  rw [Worker.checkRetry]
  split
  · exact h.advance hh.symm (Nat.zero_le _)
  rename_i r rest hr
  split_ifs
  · refine ⟨?_, ?_, ?_⟩
    · have hrw := h.rows
      rw [hh, Worker.queued, hr] at hrw
      have hpr : (w.pending.filterMap PurgeTask.job? ++ r.job :: rest.map (·.job)).Perm
          (r.job :: (w.pending.filterMap PurgeTask.job? ++ rest.map (·.job))) :=
        List.perm_middle
      exact hrw.perm hpr
    · have := h.capacity
      rw [hr, List.length_cons] at this
      show w.pending.length + rest.length + 1 ≤ _
      omega
    · have hs := h.sorted
      rw [hr] at hs
      exact (List.pairwise_cons.mp hs).2
  · exact h.advance hh.symm (Nat.zero_le _)

theorem Owned.reload (h : w.Owned) {r : ClaimedPurgeRetry π} (hp : w.phase = .reload r)
    (stf : Bool) (now : ℕ) : (w.reload r stf now).Owned := by
  have hh : w.phase.held = [r.job] := by rw [hp]; rfl
  have hhn : w.phase.inHand = 1 := by rw [hp]; rfl
  have hr := h.rows
  rw [hh] at hr
  -- the row of a held job is the one that was read when it was claimed
  obtain ⟨hg, hcl⟩ := hr.get
  simp only [Worker.reload]
  split_ifs
  · exact h.failed hh hhn _ now
  rw [hg]
  dsimp only
  rw [if_pos hcl]
  exact h.advance hh.symm hhn.ge

theorem Owned.openWork (h : w.Owned) (hp : w.phase = .opening job origin)
    (r : OpenResult τ) (now : ℕ) :
    (w.openWork job origin r now).Owned := by
  have hh : w.phase.held = [job] := by rw [hp]; rfl
  have hhn : w.phase.inHand = 1 := by rw [hp]; rfl
  unfold Worker.openWork
  split
  · exact h.failed hh hhn origin now
  split
  · exact h.advance hh.symm hhn.ge
  · split_ifs
    · exact h.push_durable hh hhn _ origin.held_next origin.inHand_next
    · exact h.advance hh.symm hhn.ge
  · exact h.advance hh.symm hhn.ge
  · exact h.advance hh.symm hhn.ge
  · exact h.advance hh.symm hhn.ge

theorem Owned.complete (h : w.Owned) {qu : Bool}
    (hp : w.phase = .completing job origin qu) (stf : Bool) (now : ℕ) :
    (w.complete job origin qu stf now).Owned := by
  have hh : w.phase.held = [job] := by rw [hp]; rfl
  have hhn : w.phase.inHand = 1 := by rw [hp]; rfl
  have hr := h.rows
  rw [hh] at hr
  obtain ⟨hg, hcl⟩ := hr.get
  rw [Worker.complete]
  split_ifs
  · exact h.failed hh hhn origin now
  have hc : completePurgeJob w.rows job.1 = (true, w.rows.erase job.1) := by
    simp [completePurgeJob, hg, if_pos hcl]
  rw [hc]
  refine h.with_rows ?_ ?_
  · rw [Origin.held_next]
    exact hr.tail_erase
  · rw [Origin.inHand_next]
    exact Nat.zero_le _

theorem Owned.defer (h : w.Owned) (hp : w.phase = .deferring job origin) (stf : Bool)
    (storeNow : ℤ) (now : ℕ) :
    (w.defer job origin stf storeNow now).Owned := by
  have hh : w.phase.held = [job] := by rw [hp]; rfl
  have hhn : w.phase.inHand = 1 := by rw [hp]; rfl
  have hr := h.rows
  rw [hh] at hr
  obtain ⟨hg, hcl⟩ := hr.get
  unfold Worker.defer
  split
  · rename_i att _
    simp only [retryPurgeJob, hg, if_pos hcl]
    refine h.with_rows ?_ ?_
    · rw [Origin.held_next]
      exact hr.tail_put (by simp)
    · rw [Origin.inHand_next]
      exact Nat.zero_le _
  · exact h.failed hh hhn origin now

theorem Owned.claim (h : w.Owned) (hp : w.phase = .claim) (can stf : Bool)
    (storeNow : ℤ) : (w.claim can stf storeNow).Owned := by
  have hh : w.phase.held = [] := by rw [hp]; rfl
  rw [Worker.claim]
  split_ifs with hrm
  · exact h.advance hh.symm (Nat.zero_le _)
  · exact h.advance hh.symm (Nat.zero_le _)
  · rw [claimDuePurgeJob_eq]
    cases hs : selectDuePurgeJob storeNow w.rows with
    | none => exact h.advance hh.symm (Nat.zero_le _)
    | some job =>
      obtain ⟨hg, hrd, -⟩ := selectDuePurgeJob_first hs
      -- the selected row was ready, so that the worker does not hold it yet
      have hold : ∀ row, w.rows.get job.1 = some row → ¬ row.state = .claimed := by
        intro row hrw
        rw [hg] at hrw
        rw [← Option.some.inj hrw, hrd]
        decide
      have hr := h.rows
      rw [hh] at hr
      refine ⟨hr.put hold rfl, ?_, h.sorted⟩
      have := of_decide_eq_true hrm
      show w.pending.length + w.claimedRetries.length + 1 ≤ _
      omega
  · exact h.advance hh.symm (Nat.zero_le _)

theorem Owned.take (h : w.Owned) (hph : w.phase = .take) : w.take.Owned := by
  have hh : w.phase.held = [] := by rw [hph]; rfl
  have hr := h.rows
  have hc := h.capacity
  rw [hh, Worker.queued] at hr
  rw [Worker.take]
  split
  · exact h.advance hh.symm (Nat.zero_le _)
  all_goals
    rename_i rest hp
    rw [hp] at hr hc
    refine ⟨hr, ?_, h.sorted⟩
    rw [List.length_cons] at hc
    show rest.length + w.claimedRetries.length + 1 ≤ _
    omega

theorem Owned.slice (h : w.Owned) (hp : w.phase = .slice job) (a : SliceAnswer τ) :
    (w.slice job a).Owned := by
  have hh : w.phase.held = [job] := by rw [hp]; rfl
  have hhn : w.phase.inHand = 1 := by rw [hp]; rfl
  unfold Worker.slice
  split
  · exact h.advance hh.symm hhn.ge
  · exact h.push_durable hh hhn _ rfl rfl
  · exact h.advance hh.symm hhn.ge
  · exact h.advance hh.symm hhn.ge

theorem Owned.sliceOrphan (h : w.Owned) (hp : w.phase = .orphan) (a : SliceAnswer τ) :
    (w.sliceOrphan a).Owned := by
  have hh : (Phase.top : Phase π τ).held = w.phase.held := by rw [hp]; rfl
  have hhn : w.phase.inHand = 1 := by rw [hp]; rfl
  have hc := h.capacity
  unfold Worker.sliceOrphan
  split
  · refine h.push_orphan _ hh ?_
    show _ + 0 ≤ _
    omega
  · exact h.advance hh (Nat.zero_le _)

theorem Owned.select (h : w.Owned) (hp : w.phase = .wait) {selected : Selected τ}
    {w' : Worker π τ} (hs : w.select selected = some w') : w'.Owned := by
  have hh : (Phase.top : Phase π τ).held = w.phase.held := by rw [hp]; rfl
  cases selected with
  | cancelled | elapsed =>
    obtain ⟨⟩ := hs
    exact h.advance hh (Nat.zero_le _)
  | received signal =>
    simp only [Worker.select] at hs
    split_ifs at hs with hr
    cases signal with
    | some signal =>
      obtain ⟨⟩ := hs
      exact h.signalled hr hh rfl signal
    | none =>
      obtain ⟨⟩ := hs
      exact h.advance hh (Nat.zero_le _)

end Worker

/-! ## Other tasks -/

section Environment

variable {π : Type} {rows : PurgeJobs π} {l : List (Job π)}
  (h : rows.Mirrors (·.state = .claimed) l)

include h

theorem prepare_mirrors [DecidableEq π] (lim : PurgeLimits) (key : PurgeJobKey) (tp trashPath : π)
    (src : FileIdentity) (dir : Bool) (now : ℤ) :
    (preparePurgeJob lim rows key
      (.prepared tp trashPath src dir now)).2.Mirrors (·.state = .claimed) l := by
  unfold preparePurgeJob
  split
  · exact h
  rename_i hn
  split_ifs
  · exact h
  · exact h
  · refine h.put_of_not (fun row hr => ?_) (fun hs => (nomatch hs))
    rw [hn] at hr
    cases hr

theorem markReady_mirrors (key : PurgeJobKey) (rev : Digest) (now : ℤ) :
    (markPurgeJobReady now rows key rev).2.Mirrors (·.state = .claimed) l := by
  unfold markPurgeJobReady
  split
  · exact h
  rename_i row hr
  split_ifs with hp
  · refine h.put_of_not (fun row' hr' => ?_) (fun hs => (nomatch hs))
    rw [hr] at hr'
    rw [← Option.some.inj hr', hp]
    decide
  · exact h

theorem remove_mirrors {key : PurgeJobKey}
    (hp : ∀ row, rows.get key = some row → row.state = .prepared) :
    (removePurgeJob rows key).2.Mirrors (·.state = .claimed) l := by
  refine h.erase_of_not fun row hr => ?_
  rw [hp row hr]
  decide

end Environment

/-- A row that another task removes is still prepared; see `removed_row_prepared`. -/
def RemovesPrepared {π τ : Type} (w : Worker π τ) (e : Event π τ) : Prop :=
  ∀ key, e = .remove key → ∀ row, w.rows.get key = some row → row.state = .prepared

/-- The tasks that remove a row: a DELETE that moved nothing and a reconciliation. Neither finds it
    claimed. -/
theorem removed_row_prepared {s : System} (h : s.Owned) {n : ℕ} {row : PurgeRow Place} :
    (∀ t, s.deletes.get n = some t → t.phase = .notMoved → s.jobs.get t.key = some row →
      row.state = .prepared) ∧
    ∀ r, s.reconcilers.get n = some r → s.jobs.get r.key = some row → row.state = .prepared := by
  refine ⟨fun t ht hp hrw => ?_, fun r hr hrw => ?_⟩
  · obtain ⟨row', hr', hs, -⟩ := (h.deletes n t ht).prepared (by rw [hp]; decide)
    cases hr'.symm.trans hrw
    exact hs
  · obtain ⟨row', hr', hs, -⟩ := (h.reconcilers n r hr).prepared
    cases hr'.symm.trans hrw
    exact hs

/-! ## Runs -/

variable {π τ : Type} [DecidableEq π]

theorem Worker.Owned.step {w w' : Worker π τ} {e : Event π τ} (h : w.Owned)
    (hok : RemovesPrepared w e) (hs : w.step e = some w') : w'.Owned := by
  cases e with
  | prepare lim key tp trashPath src dir now =>
    obtain ⟨⟩ := hs
    exact h.with_rows (prepare_mirrors h.rows lim key tp trashPath src dir now) le_rfl
  | markReady key rev now =>
    obtain ⟨⟩ := hs
    exact h.with_rows (markReady_mirrors h.rows key rev now) le_rfl
  | remove key =>
    obtain ⟨⟩ := hs
    exact h.with_rows (remove_mirrors h.rows (hok key rfl)) le_rfl
  | select selected =>
    simp only [Worker.step] at hs
    split at hs
    · rename_i hp
      exact h.select hp hs
    · cases hs
  | begin can =>
    simp only [Worker.step] at hs
    split at hs
    · rename_i hp
      obtain ⟨⟩ := hs
      have hh : w.phase.held = [] := by rw [hp]; rfl
      refine h.advance ?_ ?_
      · rw [hh]
        split_ifs <;> rfl
      · split_ifs <;> exact Nat.zero_le _
    · cases hs
  | quarantine qu now =>
    simp only [Worker.step] at hs
    split at hs
    · rename_i job origin hp
      obtain ⟨⟩ := hs
      have hh : w.phase.held = [job] := by rw [hp]; rfl
      have hhn : w.phase.inHand = 1 := by rw [hp]; rfl
      split_ifs
      · exact h.advance hh.symm hhn.ge
      · exact h.failed hh hhn origin now
    · cases hs
  | tryRecv r =>
    simp only [Worker.step] at hs
    split at hs
    · rename_i hp
      obtain ⟨⟩ := hs
      exact h.tryRecv hp r
    · cases hs
  | checkRetry now =>
    simp only [Worker.step] at hs
    split at hs
    · rename_i hp
      obtain ⟨⟩ := hs
      exact h.checkRetry hp now
    · cases hs
  | reload stf now =>
    simp only [Worker.step] at hs
    split at hs
    · rename_i rt hp
      obtain ⟨⟩ := hs
      exact h.reload hp stf now
    · cases hs
  | openWork r now =>
    simp only [Worker.step] at hs
    split at hs
    · rename_i job origin hp
      obtain ⟨⟩ := hs
      exact h.openWork hp r now
    · cases hs
  | complete stf now =>
    simp only [Worker.step] at hs
    split at hs
    · rename_i job origin qu hp
      obtain ⟨⟩ := hs
      exact h.complete hp stf now
    · cases hs
  | defer stf storeNow now =>
    simp only [Worker.step] at hs
    split at hs
    · rename_i job origin hp
      obtain ⟨⟩ := hs
      exact h.defer hp stf storeNow now
    · cases hs
  | claim can stf storeNow =>
    simp only [Worker.step] at hs
    split at hs
    · rename_i hp
      obtain ⟨⟩ := hs
      exact h.claim hp can stf storeNow
    · cases hs
  | take =>
    simp only [Worker.step] at hs
    split at hs
    · rename_i hp
      obtain ⟨⟩ := hs
      exact h.take hp
    · cases hs
  | slice a =>
    simp only [Worker.step] at hs
    split at hs
    · rename_i job hp
      obtain ⟨⟩ := hs
      exact h.slice hp a
    · cases hs
  | sliceOrphan a =>
    simp only [Worker.step] at hs
    split at hs
    · rename_i hp
      obtain ⟨⟩ := hs
      exact h.sliceOrphan hp a
    · cases hs

/-- A worker that starts after `recover_database` has made every claimed row ready again. -/
def workerMachine (rows : PurgeJobs π) (now : ℤ) : Machine (Worker π τ) (Event π τ) where
  init := ⟨recoverPurgeJobs now rows, [], [], .top⟩
  step := Worker.step

omit [DecidableEq π] in
/-- No row is claimed when the process starts. -/
theorem recover_mirrors (rows : PurgeJobs π) (now : ℤ) :
    (recoverPurgeJobs now rows).Mirrors (·.state = .claimed) [] := by
  refine .nil fun key row hr => ?_
  rw [recoverPurgeJobs_get] at hr
  obtain ⟨old, -, rfl⟩ := Option.map_eq_some_iff.mp hr
  unfold PurgeRow.recover
  split_ifs with hc
  · simp
  · exact fun hcl => hc (.inl hcl)

theorem Worker.owned_of_reachable {rows : PurgeJobs π} {now : ℤ} {w : Worker π τ}
    (h : (workerMachine rows now).Reachable RemovesPrepared w) : w.Owned := by
  refine h.invariant ?_ fun w e w' _ ih hok hs => ih.step hok hs
  exact ⟨recover_mirrors rows now, Nat.zero_le _, List.Pairwise.nil⟩

/-- At every loop boundary the claimed rows are the jobs of the durable tasks and of the retries, each
    once. The queues together fit the capacity, and the retries are sorted by their due time. -/
theorem claimed_rows_queued {rows : PurgeJobs π} {now : ℤ} {w : Worker π τ}
    (h : (workerMachine rows now).Reachable RemovesPrepared w) (htop : w.phase = .top) :
    w.rows.Mirrors (·.state = .claimed)
      (w.pending.filterMap PurgeTask.job? ++ w.claimedRetries.map (·.job)) ∧
    w.pending.length + w.claimedRetries.length ≤ deletePurgeActiveCapacity ∧
    w.claimedRetries.Pairwise fun a b => a.due ≤ b.due := by
  have ho := Worker.owned_of_reachable h
  have hr := ho.rows
  have hc := ho.capacity
  rw [htop] at hr hc
  exact ⟨hr, hc, ho.sorted⟩

/-- A run in which the state store fails while a slice reports completion: the job waits in the
    retry queue, and its row stays claimed. -/
def storeFailureRun : List (Event ℕ Unit) :=
  let key : PurgeJobKey := ⟨1, 2⟩
  [.prepare ⟨4096, 1024⟩ key 10 11 ⟨5, 6⟩ true 0, .markReady key 7 0, .begin false, .tryRecv .empty,
    .checkRetry 0, .claim false false 3,
    .openWork (.capture (.ok (some ⟨⟨5, 6⟩, true, ()⟩))) 1, .claim false true 3, .take,
    .slice .complete, .complete true 20]

/-- The loop is at its top with one retry. -/
def retriesOnly (w : Worker ℕ Unit) : Bool :=
  (match w.phase with
    | .top => true
    | _ => false) &&
  decide ((w.claimedRetries.map fun retry => (retry.due, retry.job.1)) = [(120, ⟨1, 2⟩)])

theorem claimed_rows_queued_after_store_failure :
    ∃ w : Worker ℕ Unit, (workerMachine .empty 0).Reachable RemovesPrepared w ∧
      retriesOnly w = true ∧ w.rows.Mirrors (·.state = .claimed)
        (w.pending.filterMap PurgeTask.job? ++ w.claimedRetries.map (·.job)) := by
  have hrm : ∀ e ∈ storeFailureRun, ∀ w, RemovesPrepared w e := by
    rintro e he w key rfl
    simp [storeFailureRun] at he
  obtain ⟨w, hw, hr⟩ := (workerMachine .empty 0).exists_reachable_of_run storeFailureRun
    retriesOnly hrm (by decide +kernel)
  have ht : w.phase = .top := by
    rw [retriesOnly, Bool.and_eq_true] at hr
    cases hp : w.phase with
    | top => rfl
    | _ => simp [hp] at hr
  exact ⟨w, hw, hr, (claimed_rows_queued hw ht).1⟩

end DufsRam.Purge.Queue
