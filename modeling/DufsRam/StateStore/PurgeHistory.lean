import DufsRam.Lib.Machine
import DufsRam.Lib.Quota
import DufsRam.StateStore.Purge

/-!
# The life of a purge job

The commands that change the table `purge_jobs`, in any order. A row keeps what it says
about the object it deletes, and from the moment it is ready it has the revision of the
trash entry, which does not change. A claim takes the first due job, and takes none twice
without a retry, a removal or a restart in between.

Results:
* `selectDuePurgeJob_first`: the job that is claimed is the first of the due ones.
* `purgeCommand_keeps`: what a command keeps of a row it does not delete.
* `PurgeTable.run`: what every command keeps of the table.
* `purge_rows_stable`: these, for every sequence of commands from the empty table.
-/

namespace DufsRam.StateStore

/-! ## Commands -/

/-- The commands on the table, with the time each of them reads. -/
inductive PurgeCommand (π : Type) where
  | prepare (now : ℤ) (key : PurgeJobKey) (targetPath trashPath : π)
      (sourceIdentity : FileIdentity) (isDirectory : Bool)
  | markReady (now : ℤ) (key : PurgeJobKey) (revision : Digest)
  | claim (now : ℤ)
  | retry (now delayMs : ℤ) (key : PurgeJobKey)
  | complete (key : PurgeJobKey)
  | remove (key : PurgeJobKey)
  | recover (now : ℤ)
deriving DecidableEq

variable {π : Type}

namespace PurgeCommand

/-- The table after a command; one that fails changes nothing. -/
def run [DecidableEq π] (limits : PurgeLimits) (jobs : PurgeJobs π) :
    PurgeCommand π → PurgeJobs π
  | .prepare now key targetPath trashPath sourceIdentity isDirectory =>
    (preparePurgeJob limits jobs key
      (.prepared targetPath trashPath sourceIdentity isDirectory now)).2
  | .markReady now key revision => (markPurgeJobReady now jobs key revision).2
  | .claim now =>
    match claimDuePurgeJob now jobs with
    | .error _ => jobs
    | .ok (_, jobs) => jobs
  | .retry now delayMs key =>
    match expirationTime now delayMs with
    | .error _ => jobs
    | .ok nextAttempt => (retryPurgeJob nextAttempt jobs key).2
  | .complete key => (completePurgeJob jobs key).2
  | .remove key => (removePurgeJob jobs key).2
  | .recover now => recoverPurgeJobs now jobs

/-- Does the command delete the row under the key? -/
def removes (jobs : PurgeJobs π) (key : PurgeJobKey) : PurgeCommand π → Bool
  | .complete key' => decide (key' = key) && (completePurgeJob jobs key').1
  | .remove key' => decide (key' = key) && (removePurgeJob jobs key').1
  | .prepare _ _ _ _ _ _ | .markReady _ _ _ | .claim _ | .retry _ _ _ | .recover _ => false

/-- The job that the command claims. -/
def claims (jobs : PurgeJobs π) : PurgeCommand π → Option (PurgeJobKey × PurgeRow π)
  | .claim now =>
    match claimDuePurgeJob now jobs with
    | .error _ => none
    | .ok (job, _) => job
  | _ => none

/-- Is the command a retry of the job that takes effect, a removal of it, or a restart? -/
def releases (jobs : PurgeJobs π) (key : PurgeJobKey) : PurgeCommand π → Bool
  | .retry now delayMs key' =>
    match expirationTime now delayMs with
    | .error _ => false
    | .ok nextAttempt => decide (key' = key) && (retryPurgeJob nextAttempt jobs key').1
  | .recover _ => true
  | command => command.removes jobs key

end PurgeCommand

/-- The table under its commands, from the empty one. -/
def purgeTable (π : Type) [DecidableEq π] (limits : PurgeLimits) :
    Machine (PurgeJobs π) (PurgeCommand π) where
  init := .empty
  step jobs command := some (command.run limits jobs)

/-! ## The claim -/

variable {key : PurgeJobKey} {row : PurgeRow π} {t : PurgeJobs π} {command : PurgeCommand π}

/-- The selected job is due, and no due job comes before it. -/
theorem selectDuePurgeJob_first {now : ℤ} {jobs : PurgeJobs π}
    (h : selectDuePurgeJob now jobs = some (key, row)) :
    jobs.get key = some row ∧ row.state = .ready ∧ row.nextAttemptAtMs ≤ now ∧
      ∀ key' row', jobs.get key' = some row' → row'.state = .ready → row'.nextAttemptAtMs ≤ now →
        purgeOrder (key, row) ≤ purgeOrder (key', row') := by
  have hm := List.argmin_mem h
  simp only [List.mem_filter, Bool.and_eq_true, decide_eq_true_iff] at hm
  obtain ⟨hrw, hr, hd⟩ := hm
  refine ⟨Table.get_eq_some_iff.mpr hrw, hr, hd, fun key' row' hg hr' hd' => ?_⟩
  refine List.le_of_mem_argmin ?_ h
  simp only [List.mem_filter, Bool.and_eq_true, decide_eq_true_iff]
  exact ⟨Table.get_eq_some_iff.mp hg, hr', hd'⟩

/-- A claim takes the selected job, and nothing if none is due. It does not fail. -/
theorem claimDuePurgeJob_eq (now : ℤ) (jobs : PurgeJobs π) :
    claimDuePurgeJob now jobs = .ok (match selectDuePurgeJob now jobs with
      | none => (none, jobs)
      | some (key, row) => (some (key, { row with state := .claimed }),
          jobs.put key { row with state := .claimed })) := by
  unfold claimDuePurgeJob
  cases hs : selectDuePurgeJob now jobs with
  | none => rfl
  | some job =>
    obtain ⟨hg, hr, hd, -⟩ := selectDuePurgeJob_first hs
    simp [claimPurgeJob, hg, hr, hd]

/-- What a command that claims a job has found. -/
theorem claims_eq_some (h : command.claims t = some (key, row)) :
    ∃ now ready, command = .claim now ∧ selectDuePurgeJob now t = some (key, ready) ∧
      row = { ready with state := .claimed } := by
  cases command with
  | claim now =>
    simp only [PurgeCommand.claims, claimDuePurgeJob_eq] at h
    cases hs : selectDuePurgeJob now t with
    | none => simp [hs] at h
    | some job =>
      simp only [hs, Option.some.injEq, Prod.mk.injEq] at h
      exact ⟨now, job.2, rfl, by rw [hs, ← h.1], h.2.symm⟩
  | _ => cases h

/-- A claim takes a job if one is due. -/
theorem claims_of_due {now : ℤ} (hg : t.get key = some row) (hr : row.state = .ready)
    (hd : row.nextAttemptAtMs ≤ now) : ((PurgeCommand.claim now).claims t).isSome = true := by
  simp only [PurgeCommand.claims, claimDuePurgeJob_eq]
  cases hs : selectDuePurgeJob now t with
  | none =>
    have hm : (key, row) ∈ t.rows.filter fun job =>
        decide (job.2.state = .ready) && decide (job.2.nextAttemptAtMs ≤ now) := by
      simp [Table.get_eq_some_iff.mp hg, hr, hd]
    rw [List.argmin_eq_none.mp hs] at hm
    cases hm
  | some job => rfl

/-! ## One row -/

/-- What a command does to a row that stays. -/
inductive PurgeRowStep (row : PurgeRow π) : PurgeRow π → Prop
  | same : PurgeRowStep row row
  | ready (revision : Digest) (now : ℤ) : row.state = .prepared → PurgeRowStep row
      { row with state := .ready, trashRevision := some revision, nextAttemptAtMs := now }
  | claimed : row.state = .ready → PurgeRowStep row { row with state := .claimed }
  | requeued (attempts : ℕ) (nextAttempt : ℤ) : row.state ≠ .prepared → PurgeRowStep row
      { row with state := .ready, attempts := attempts, nextAttemptAtMs := nextAttempt }

/-- What stays of a row as long as it is there. -/
structure PurgeKeeps (before after : PurgeRow π) : Prop where
  targetPath : after.targetPath = before.targetPath
  trashPath : after.trashPath = before.trashPath
  sourceIdentity : after.sourceIdentity = before.sourceIdentity
  isDirectory : after.isDirectory = before.isDirectory
  revision : before.state ≠ .prepared →
    after.state ≠ .prepared ∧ after.trashRevision = before.trashRevision

namespace PurgeKeeps

variable {a b c : PurgeRow π}

theorem refl (a : PurgeRow π) : PurgeKeeps a a := ⟨rfl, rfl, rfl, rfl, fun h => ⟨h, rfl⟩⟩

theorem trans (h : PurgeKeeps a b) (h' : PurgeKeeps b c) : PurgeKeeps a c where
  targetPath := h'.targetPath.trans h.targetPath
  trashPath := h'.trashPath.trans h.trashPath
  sourceIdentity := h'.sourceIdentity.trans h.sourceIdentity
  isDirectory := h'.isDirectory.trans h.isDirectory
  revision hs := by
    obtain ⟨hs₁, hr₁⟩ := h.revision hs
    obtain ⟨hs₂, hr₂⟩ := h'.revision hs₁
    exact ⟨hs₂, hr₂.trans hr₁⟩

theorem of_step (h : PurgeRowStep a b) : PurgeKeeps a b := by
  cases h with
  | same => exact .refl a
  | ready rev now hp => exact ⟨rfl, rfl, rfl, rfl, fun hs => absurd hp hs⟩
  | claimed | requeued => exact ⟨rfl, rfl, rfl, rfl, fun _ => ⟨by simp, rfl⟩⟩

end PurgeKeeps

/-- The recovery works row by row. -/
theorem recoverPurgeJobs_get (now : ℤ) (t : PurgeJobs π) (key : PurgeJobKey) :
    (recoverPurgeJobs now t).get key = (t.get key).map (·.recover now) := by
  cases hg : t.get key with
  | none => simp [recoverPurgeJobs, hg]
  | some row =>
    by_cases hcl : row.state = .claimed
    · simp [recoverPurgeJobs, PurgeRow.recover, hg, hcl]
    · by_cases hl : row.state = .ready ∧ now < row.nextAttemptAtMs
      · simp [recoverPurgeJobs, PurgeRow.recover, hg, hl]
      · simp [recoverPurgeJobs, PurgeRow.recover, hg, hcl, hl]

theorem PurgeRowStep.recover (row : PurgeRow π) (now : ℤ) : PurgeRowStep row (row.recover now) := by
  unfold PurgeRow.recover
  split_ifs with hrq
  · refine .requeued row.attempts now ?_
    obtain hcl | ⟨hr, -⟩ := hrq
    · simp [hcl]
    · simp [hr]
  · exact .same

/-! ## The table -/

/-- What holds of the rows together. -/
structure PurgeTable (limits : PurgeLimits) (t : PurgeJobs π) : Prop where
  trash : ∀ key key' row row', t.get key = some row → t.get key' = some row' →
    row.trashPath = row'.trashPath → key = key'
  revision : ∀ key row, t.get key = some row → row.state ≠ .prepared →
    row.trashRevision.isSome = true
  quota : t.Quota PurgeJobKey.owner limits.purgeCapacity limits.purgePerOwner

/-- Every row comes from a row that was there. -/
def Rewrites (t t' : PurgeJobs π) : Prop :=
  ∀ key row', t'.get key = some row' → ∃ row, t.get key = some row ∧ PurgeRowStep row row'

theorem Rewrites.put {row' : PurgeRow π} (hg : t.get key = some row)
    (hs : PurgeRowStep row row') : Rewrites t (t.put key row') := by
  intro key₁ row₁ hg₁
  obtain ⟨rfl, rfl⟩ | ⟨-, hold⟩ := Table.get_put_cases hg₁
  · exact ⟨row, hg, hs⟩
  · exact ⟨row₁, hold, .same⟩

theorem Rewrites.erase (t : PurgeJobs π) (key : PurgeJobKey) : Rewrites t (t.erase key) :=
  fun _ row hg => ⟨row, (Table.get_of_get_erase hg).2, .same⟩

namespace PurgeTable

variable {limits : PurgeLimits} {t t' : PurgeJobs π}

theorem empty : PurgeTable limits (.empty : PurgeJobs π) := by
  refine ⟨fun key key' row row' hg => ?_, fun key row hg => ?_, .empty⟩
  · simp at hg
  · simp at hg

theorem rewrites (h : PurgeTable limits t) (hr : Rewrites t t')
    (hq : t'.Quota PurgeJobKey.owner limits.purgeCapacity limits.purgePerOwner) :
    PurgeTable limits t' := by
  refine ⟨fun key key' row row' hg hg' ht => ?_, fun key row hg hs => ?_, hq⟩
  · obtain ⟨row₁, hg₁, hs₁⟩ := hr key row hg
    obtain ⟨row₂, hg₂, hs₂⟩ := hr key' row' hg'
    refine h.trash key key' row₁ row₂ hg₁ hg₂ ?_
    rw [← (PurgeKeeps.of_step hs₁).trashPath, ← (PurgeKeeps.of_step hs₂).trashPath, ht]
  · obtain ⟨row₁, hg₁, hst⟩ := hr key row hg
    cases hst with
    | same => exact h.revision key row hg₁ hs
    | ready => rfl
    | claimed hrd => exact h.revision key row₁ hg₁ (by simp [hrd])
    | requeued _ _ hw => exact h.revision key row₁ hg₁ hw

end PurgeTable

/-! ## What a command does -/

variable [DecidableEq π]

/-- What a command does to the table. -/
inductive PurgeChange (limits : PurgeLimits) (t : PurgeJobs π) (command : PurgeCommand π) :
    PurgeJobs π → Prop
  | same : PurgeChange limits t command t
  | insert {key : PurgeJobKey} {row : PurgeRow π} : t.get key = none → row.state = .prepared →
      (∀ key' row', t.get key' = some row' → row'.trashPath ≠ row.trashPath) →
      t.countWhere (fun _ _ => true) < limits.purgeCapacity →
      t.countWhere (fun key' _ => decide (key'.owner = key.owner)) < limits.purgePerOwner →
      PurgeChange limits t command (t.put key row)
  | rewrite {key : PurgeJobKey} {row row' : PurgeRow π} : t.get key = some row →
      PurgeRowStep row row' → (row.state = .claimed → command.releases t key = true) →
      PurgeChange limits t command (t.put key row')
  | erase {key : PurgeJobKey} : ((t.get key).isSome = true → command.removes t key = true) →
      PurgeChange limits t command (t.erase key)
  | recover (now : ℤ) : command = .recover now →
      PurgeChange limits t command (recoverPurgeJobs now t)

theorem run_changes (limits : PurgeLimits) (t : PurgeJobs π) (command : PurgeCommand π) :
    PurgeChange limits t command (command.run limits t) := by
  cases command with
  | prepare now key tp trashPath src dir =>
    simp only [PurgeCommand.run, preparePurgeJob]
    cases hg : t.get key with
    | some old => exact .same
    | none =>
      dsimp only
      split_ifs with ht hf
      · exact .same
      · exact .same
      · rw [Bool.not_eq_true, Table.any_eq_false_iff] at ht
        simp only [not_or, not_le] at hf
        exact .insert hg rfl (fun key' row' hg' => by simpa using ht key' row' hg') hf.1 hf.2
  | markReady now key rev =>
    simp only [PurgeCommand.run, markPurgeJobReady]
    cases hg : t.get key with
    | none => exact .same
    | some row =>
      dsimp only
      split_ifs with hp
      · exact .rewrite hg (.ready rev now hp) fun hcl => by rw [hp] at hcl; cases hcl
      · exact .same
  | claim now =>
    simp only [PurgeCommand.run, claimDuePurgeJob_eq]
    cases hsl : selectDuePurgeJob now t with
    | none => exact .same
    | some job =>
      obtain ⟨hg, hr, -⟩ := selectDuePurgeJob_first hsl
      exact .rewrite hg (.claimed hr) fun hcl => by rw [hr] at hcl; cases hcl
  | retry now delayMs key =>
    simp only [PurgeCommand.run]
    cases ht : expirationTime now delayMs with
    | error e => exact .same
    | ok att =>
      simp only [retryPurgeJob]
      cases hg : t.get key with
      | none => exact .same
      | some row =>
        dsimp only
        split_ifs with hcl
        · refine .rewrite hg (.requeued _ _ (by simp [hcl])) fun _ => ?_
          simp [PurgeCommand.releases, ht, retryPurgeJob, hg, hcl]
        · exact .same
  | complete key =>
    simp only [PurgeCommand.run, completePurgeJob]
    cases hg : t.get key with
    | none => exact .same
    | some row =>
      dsimp only
      split_ifs with hcl
      · exact .erase fun _ => by simp [PurgeCommand.removes, completePurgeJob, hg, hcl]
      · exact .same
  | remove key => exact .erase fun hg => by simp [PurgeCommand.removes, removePurgeJob, hg]
  | recover now => exact .recover now rfl

/-- A row that stays makes one step, and a claimed row stays claimed unless the command
    releases it. -/
theorem purgeCommand_step (limits : PurgeLimits) (hg : t.get key = some row)
    (hkp : command.removes t key = false) :
    ∃ row', (command.run limits t).get key = some row' ∧ PurgeRowStep row row' ∧
      (row.state = .claimed → command.releases t key = false → row' = row) := by
  have hc := run_changes limits t command
  generalize command.run limits t = t' at hc
  have hs : t'.get key = some row → ∃ row', t'.get key = some row' ∧ PurgeRowStep row row' ∧
      (row.state = .claimed → command.releases t key = false → row' = row) :=
    fun hg' => ⟨row, hg', .same, fun _ _ => rfl⟩
  cases hc with
  | same => exact hs hg
  | @insert key' _ hn =>
    refine hs (Table.get_put_of_ne hg ?_)
    rintro rfl
    rw [hg] at hn
    cases hn
  | @rewrite key' _ _ hg' hst hcl =>
    by_cases hk : key = key'
    · subst hk
      rw [hg] at hg'
      cases hg'
      refine ⟨_, by rw [Table.get_put, if_pos rfl], hst, fun hc hrl => ?_⟩
      rw [hcl hc] at hrl
      cases hrl
    · exact hs (Table.get_put_of_ne hg hk)
  | @erase key' hr =>
    have hk : key ≠ key' := by
      rintro rfl
      rw [hr (by simp [hg])] at hkp
      cases hkp
    exact hs (by rw [Table.get_erase, if_neg hk, hg])
  | recover now he =>
    subst he
    rw [recoverPurgeJobs_get, hg, Option.map_some]
    exact ⟨_, rfl, .recover row now, fun _ hrl => by cases hrl⟩

/-- A command keeps every row that it does not delete. -/
theorem purgeCommand_keeps (limits : PurgeLimits) (hg : t.get key = some row)
    (hk : command.removes t key = false) :
    ∃ row', (command.run limits t).get key = some row' ∧ PurgeKeeps row row' := by
  obtain ⟨row', hg', hs, -⟩ := purgeCommand_step limits hg hk
  exact ⟨row', hg', .of_step hs⟩

/-- Every command keeps what holds of the table. -/
theorem PurgeTable.run {limits : PurgeLimits} (h : PurgeTable limits t)
    (command : PurgeCommand π) : PurgeTable limits (command.run limits t) := by
  have hc := run_changes limits t command
  generalize command.run limits t = t' at hc
  cases hc with
  | same => exact h
  | @insert key p hg hpr hn hrm hro =>
    exact ⟨Table.eq_of_get_put h.trash fun key' row' hg' hp => absurd hp (hn key' row' hg'),
      Table.forall_get_put (fun hs => absurd hpr hs) h.revision, h.quota.put_of_room _ hrm hro⟩
  | rewrite hg hs => exact h.rewrites (.put hg hs) (h.quota.put_of_get hg _)
  | erase => exact h.rewrites (.erase t _) (h.quota.erase _)
  | recover now he =>
    subst he
    refine h.rewrites (fun key row' hg => ?_) ((h.quota.updateWhere _ _).updateWhere _ _)
    rw [recoverPurgeJobs_get] at hg
    obtain ⟨row, hold, rfl⟩ := Option.map_eq_some_iff.mp hg
    exact ⟨row, hold, .recover row now⟩

/-- A job that was claimed stays claimed along a run that does not release it. -/
theorem claimed_of_steps {limits : PurgeLimits} {t' : PurgeJobs π}
    (h : (purgeTable π limits).Steps (fun u command => command.releases u key = false) t t')
    (hg : t.get key = some row) (hcl : row.state = .claimed) :
    ∃ row', t'.get key = some row' ∧ row'.state = .claimed := by
  induction h with
  | refl => exact ⟨row, hg, hcl⟩
  | @tail u v command _ hrl hs ih =>
    obtain ⟨row₁, hg₁, hcl₁⟩ := ih
    cases hs
    have hr : command.removes u key = false := by
      cases command with
      | complete | remove => exact hrl
      | _ => rfl
    obtain ⟨row₂, hg₂, -, hsm⟩ := purgeCommand_step limits hg₁ hr
    exact ⟨row₂, hg₂, by rw [hsm hcl₁ hrl, hcl₁]⟩

/-- Every sequence of commands: a row that no command deletes keeps what it says of the object,
    and its revision once it is ready; ready and claimed rows have one; no two rows share a
    trash path, and the capacities are kept; a claim takes the first due job, if there is one; and
    a job is not claimed again before it is released. -/
theorem purge_rows_stable (π : Type) [DecidableEq π] (limits : PurgeLimits) :
    (∀ t t' key row, (purgeTable π limits).Reachable (fun _ _ => True) t →
      (purgeTable π limits).Steps (fun u command => command.removes u key = false) t t' →
      t.get key = some row → ∃ row', t'.get key = some row' ∧ PurgeKeeps row row') ∧
    (∀ t, (purgeTable π limits).Reachable (fun _ _ => True) t →
      (∀ key row, t.get key = some row → row.state = .ready ∨ row.state = .claimed →
        row.trashRevision.isSome = true) ∧
      (∀ key key' row row', t.get key = some row → t.get key' = some row' → key ≠ key' →
        row.trashPath ≠ row'.trashPath) ∧
      t.countWhere (fun _ _ => true) ≤ limits.purgeCapacity ∧
      ∀ owner, t.countWhere (fun key _ => decide (key.owner = owner)) ≤ limits.purgePerOwner) ∧
    (∀ t now key row, (purgeTable π limits).Reachable (fun _ _ => True) t →
      (PurgeCommand.claim now).claims t = some (key, row) →
      ∃ ready, t.get key = some ready ∧ ready.state = .ready ∧ ready.nextAttemptAtMs ≤ now ∧
        row = { ready with state := .claimed } ∧
        ∀ key' row', t.get key' = some row' → row'.state = .ready → row'.nextAttemptAtMs ≤ now →
          purgeOrder (key, ready) ≤ purgeOrder (key', row')) ∧
    (∀ (t : PurgeJobs π) now key row, t.get key = some row → row.state = .ready →
      row.nextAttemptAtMs ≤ now → ((PurgeCommand.claim now).claims t).isSome = true) ∧
    ∀ t t' (command command' : PurgeCommand π) key row row',
      (purgeTable π limits).Reachable (fun _ _ => True) t → command.claims t = some (key, row) →
      (purgeTable π limits).Steps (fun u command => command.releases u key = false)
        (command.run limits t) t' →
      command'.claims t' ≠ some (key, row') := by
  refine ⟨fun t t' key row _ hst hg => ?_, fun t ht => ?_, fun t now key row _ hc => ?_,
    fun t now key row hg hr hd => claims_of_due hg hr hd,
    fun t t' command command' key row row' _ hc hst hc' => ?_⟩
  · refine hst.follows (fun t => t.get key) PurgeKeeps .refl (fun _ _ _ h h' => h.trans h') ?_ hg
    intro s command s' row hk hsp hg
    cases hsp
    exact purgeCommand_keeps limits hg hk
  · have htb : PurgeTable limits t := by
      refine ht.invariant .empty fun s command s' _ h _ hsp => ?_
      cases hsp
      exact h.run command
    refine ⟨fun key row hg hsta => htb.revision key row hg ?_,
      fun key key' row row' hg hg' hne htr =>
        hne (htb.trash key key' row row' hg hg' htr),
      htb.quota.rows, htb.quota.owned⟩
    rintro hp
    simp [hp] at hsta
  · obtain ⟨now', ready, hcm, hs, rfl⟩ := claims_eq_some hc
    cases hcm
    obtain ⟨hg, hr, hd, hf⟩ := selectDuePurgeJob_first hs
    exact ⟨ready, hg, hr, hd, rfl, hf⟩
  · -- After the first claim the row is claimed, and the second finds a ready one.
    obtain ⟨now, ready, rfl, hs, rfl⟩ := claims_eq_some hc
    have hg : ((PurgeCommand.claim now).run limits t).get key =
        some { ready with state := .claimed } := by
      simp [PurgeCommand.run, claimDuePurgeJob_eq, hs]
    obtain ⟨row₁, hg₁, hcl⟩ := claimed_of_steps hst hg rfl
    obtain ⟨now', ready', rfl, hs', rfl⟩ := claims_eq_some hc'
    obtain ⟨hg', hr', -⟩ := selectDuePurgeJob_first hs'
    rw [hg₁] at hg'
    cases hg'
    rw [hcl] at hr'
    cases hr'

end DufsRam.StateStore
