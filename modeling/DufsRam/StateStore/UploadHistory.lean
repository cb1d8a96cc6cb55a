import DufsRam.Lib.Machine
import DufsRam.Lib.Quota
import DufsRam.StateStore.Upload

/-!
# The life of an upload session

The commands that change the table `upload_sessions`, in any order and with any arguments.
Whatever is proposed, a row keeps what identifies it, its offset only grows, and it stays as
it is once it is terminal; a row ends only where a command deletes it. No two rows that are
not terminal have one staging path, and the table keeps its capacities.

Results:
* `run_keeps`: what a command keeps of a row it does not delete.
* `UploadTable.run`: what every command keeps of the table.
* `upload_rows_stable`: both, for every sequence of commands from the empty table.
-/

namespace DufsRam.StateStore

/-! ## One row -/

variable {π : Type}

/-- What stays of a session as long as its row is there. -/
structure Keeps (before after : StoredUploadSession π) : Prop where
  targetPath : after.targetPath = before.targetPath
  stagePath : after.stagePath = before.stagePath
  uploadLength : after.uploadLength = before.uploadLength
  durableOffset : before.durableOffset ≤ after.durableOffset
  stageIdentity : ∀ i, before.stageIdentity = some i → after.stageIdentity = some i
  terminal : before.state.isTerminal = true →
    after.state = before.state ∧ after.durableOffset = before.durableOffset ∧
      after.stageIdentity = before.stageIdentity ∧ after.targetRevision = before.targetRevision

namespace Keeps

variable {a b c : StoredUploadSession π}

theorem refl (a : StoredUploadSession π) : Keeps a a :=
  ⟨rfl, rfl, rfl, le_rfl, fun _ h => h, fun _ => ⟨rfl, rfl, rfl, rfl⟩⟩

theorem trans (h : Keeps a b) (h' : Keeps b c) : Keeps a c where
  targetPath := h'.targetPath.trans h.targetPath
  stagePath := h'.stagePath.trans h.stagePath
  uploadLength := h'.uploadLength.trans h.uploadLength
  durableOffset := h.durableOffset.trans h'.durableOffset
  stageIdentity i hi := h'.stageIdentity i (h.stageIdentity i hi)
  terminal ht := by
    obtain ⟨hs, ho, hid, hr⟩ := h.terminal ht
    obtain ⟨hs', ho', hid', hr'⟩ := h'.terminal (by rw [hs, ht])
    exact ⟨hs'.trans hs, ho'.trans ho, hid'.trans hid, hr'.trans hr⟩

/-- A session that only changes its state and is not terminal yet. -/
theorem of_state (hl : a.state.isTerminal = false) (state : StoredUploadState) :
    Keeps a { a with state := state } := by
  refine ⟨rfl, rfl, rfl, le_rfl, fun _ h => h, fun ht => ?_⟩
  rw [hl] at ht
  cases ht

theorem of_merges (h : Merges a b) : Keeps a b := by
  refine ⟨h.targetPath.symm, h.stagePath.symm, h.uploadLength.symm, h.durableOffset,
    fun i hi => ?_, fun ht => ?_⟩
  · rw [h.stageIdentity (by simp [hi]), hi]
  -- A terminal session is replaced by itself only.
  have ha : transitionAllowed a.state b.state = false := by
    cases hs : a.state with
    | committed | rejected | unknown => rfl
    | running | commitStarted | awaitingConfirmation =>
      rw [hs] at ht
      cases ht
  obtain ⟨hs, hsm⟩ | ha' := h.transition
  · obtain ⟨ho, hid⟩ := hsm ht
    refine ⟨hs.symm, ho.symm, hid.symm, ?_⟩
    obtain hr | ⟨-, hl⟩ | haw := h.targetRevision
    · exact hr.symm
    · rw [ht] at hl
      cases hl
    · rw [haw] at ht
      cases ht
  · rw [ha] at ha'
    cases ha'

theorem recover (row : UploadRow π) (exp : ℤ) : Keeps row.session (row.recover exp).session := by
  unfold UploadRow.recover
  split_ifs with hc
  · exact .of_state (by rw [hc]; rfl) _
  · exact .refl _

end Keeps

variable {t t' : UploadSessions π} {key : UploadSessionKey}

/-- The recovery works row by row. -/
theorem recoverUploadSessions_get {limits : UploadLimits} {now : ℤ}
    (h : recoverUploadSessions limits now t = .ok t') :
    ∃ exp, expirationTime now limits.uploadTtlMs = .ok exp ∧
      ∀ key, t'.get key = (t.get key).map (·.recover exp) := by
  obtain ⟨exp, ht, rfl⟩ := exists_of_map_eq_ok h
  refine ⟨exp, ht, fun key => ?_⟩
  simp only [Table.get_updateWhere, Option.map_map]
  congr 1
  funext row
  by_cases hc : row.session.state = .commitStarted
  · simp [UploadRow.recover, hc]
  · by_cases hl : exp < row.expiresAtMs
    · simp [UploadRow.recover, hc, hl, min_eq_right hl.le]
    · simp [UploadRow.recover, hc, hl, min_eq_left (not_lt.mp hl)]

/-- A session that is live after a recovery is as it was before. -/
theorem UploadRow.session_recover {row : UploadRow π} {exp : ℤ}
    (hl : (row.recover exp).session.state.isTerminal = false) :
    (row.recover exp).session = row.session := by
  unfold recover at hl ⊢
  split_ifs at hl ⊢
  · cases hl
  · rfl

/-! ## The table -/

/-- What holds of the rows together. -/
structure UploadTable (limits : UploadLimits) (t : UploadSessions π) : Prop where
  alone : ∀ key key' row row', t.get key = some row → t.get key' = some row' →
    row.session.state.isTerminal = false → row'.session.state.isTerminal = false →
    row.session.stagePath = row'.session.stagePath → key = key'
  quota : t.Quota UploadSessionKey.owner limits.uploadCapacity limits.uploadPerOwner

namespace UploadTable

variable {limits : UploadLimits} {t t' : UploadSessions π}

theorem empty : UploadTable limits (.empty : UploadSessions π) := by
  refine ⟨fun key key' row row' hg => ?_, .empty⟩
  simp at hg

/-- Rows go, or become terminal, and nothing else happens to a staging path. -/
theorem fewer (h : UploadTable limits t)
    (hq : t'.Quota UploadSessionKey.owner limits.uploadCapacity limits.uploadPerOwner)
    (hr : ∀ key row', t'.get key = some row' → row'.session.state.isTerminal = false →
      ∃ row, t.get key = some row ∧ row.session.state.isTerminal = false ∧
        row.session.stagePath = row'.session.stagePath) : UploadTable limits t' := by
  refine ⟨fun key key' row row' hg hg' hl hl' hp => ?_, hq⟩
  obtain ⟨row₁, hg₁, hl₁, hp₁⟩ := hr key row hg hl
  obtain ⟨row₂, hg₂, hl₂, hp₂⟩ := hr key' row' hg' hl'
  exact h.alone key key' row₁ row₂ hg₁ hg₂ hl₁ hl₂ (by rw [hp₁, hp₂, hp])

theorem swept (h : UploadTable limits t) (now : ℤ) : UploadTable limits (swept t now) :=
  h.fewer (h.quota.deleteWhere _) fun _ row' hg hl =>
    ⟨row', get_of_get_swept hg, hl, rfl⟩

theorem erase (h : UploadTable limits t) (key : UploadSessionKey) :
    UploadTable limits (t.erase key) :=
  h.fewer (h.quota.erase key) fun _ row' hg hl =>
    ⟨row', (Table.get_of_get_erase hg).2, hl, rfl⟩

/-- A stored session that is not terminal is alone with its staging path. -/
theorem put (h : UploadTable limits t) {key : UploadSessionKey} {row : UploadRow π}
    (hq : (t.put key row).Quota UploadSessionKey.owner limits.uploadCapacity limits.uploadPerOwner)
    (ha : row.session.state.isTerminal = false → ∀ key' row', t.get key' = some row' →
      row'.session.stagePath = row.session.stagePath → row'.session.state.isTerminal = false →
      key' = key) : UploadTable limits (t.put key row) := by
  refine ⟨fun key₁ key₂ row₁ row₂ hg₁ hg₂ hl₁ hl₂ hp => ?_, hq⟩
  obtain ⟨rfl, rfl⟩ | ⟨hne₁, ho₁⟩ := Table.get_put_cases hg₁
  · obtain ⟨rfl, -⟩ | ⟨-, ho₂⟩ := Table.get_put_cases hg₂
    · rfl
    · exact (ha hl₁ key₂ row₂ ho₂ hp.symm hl₂).symm
  · obtain ⟨rfl, rfl⟩ | ⟨-, ho₂⟩ := Table.get_put_cases hg₂
    · exact ha hl₂ key₁ row₁ ho₁ hp hl₁
    · exact h.alone key₁ key₂ row₁ row₂ ho₁ ho₂ hl₁ hl₂ hp

theorem recover (h : UploadTable limits t) {now ttl : ℤ}
    (hr : recoverUploadSessions { limits with uploadTtlMs := ttl } now t = .ok t') :
    UploadTable limits t' := by
  refine h.fewer ?_ fun key row' hg hl => ?_
  · obtain ⟨exp, -, rfl⟩ := exists_of_map_eq_ok hr
    exact (h.quota.updateWhere _ _).updateWhere _ _
  · obtain ⟨exp, -, hrc⟩ := recoverUploadSessions_get hr
    rw [hrc] at hg
    obtain ⟨row, hg', rfl⟩ := Option.map_eq_some_iff.mp hg
    have hs := UploadRow.session_recover hl
    exact ⟨row, hg', by rw [← hs, hl], by rw [hs]⟩

end UploadTable

/-! ## Commands -/

/-- The commands on the table. Each carries the time it reads and, where it sets an
    expiration, the time to live. -/
inductive UploadCommand (π : Type) where
  | save (now ttlMs : ℤ) (key : UploadSessionKey) (proposed : StoredUploadSession π)
  | reject (now ttlMs : ℤ) (key : UploadSessionKey) (targetPath stagePath : π)
  | removeIfMatches (key : UploadSessionKey) (expected : StoredUploadSession π)
  | removeExpiredIfMatches (now : ℤ) (key : UploadSessionKey) (expected : UploadRow π)
  | recover (now ttlMs : ℤ)
deriving DecidableEq

variable [DecidableEq π]

namespace UploadCommand

/-- The table after a command; one that fails changes nothing. -/
def run (limits : UploadLimits) (sessions : UploadSessions π) :
    UploadCommand π → UploadSessions π
  | .save now ttlMs key proposed =>
    match saveUploadSession { limits with uploadTtlMs := ttlMs } now sessions key proposed with
    | .error _ => sessions
    | .ok (_, sessions) => sessions
  | .reject now ttlMs key targetPath stagePath =>
    match rejectUploadSession ttlMs now sessions key targetPath stagePath with
    | .error _ => sessions
    | .ok (_, sessions) => sessions
  | .removeIfMatches key expected => (removeUploadSessionIfMatches sessions key expected).2
  | .removeExpiredIfMatches now key expected =>
    (removeExpiredUploadSessionIfMatches now sessions key expected).2
  | .recover now ttlMs =>
    match recoverUploadSessions { limits with uploadTtlMs := ttlMs } now sessions with
    | .error _ => sessions
    | .ok sessions => sessions

/-- Does the command delete the row under the key? A save does, when it sweeps the table. -/
def removes (limits : UploadLimits) (sessions : UploadSessions π) (key : UploadSessionKey) :
    UploadCommand π → Bool
  | .save now ttlMs key' proposed =>
    match saveUploadSession { limits with uploadTtlMs := ttlMs } now sessions key' proposed with
    | .error _ => false
    | .ok _ => (sessions.get key).any fun row => row.isExpired now
  | .removeIfMatches key' expected =>
    decide (key' = key) && (removeUploadSessionIfMatches sessions key' expected).1
  | .removeExpiredIfMatches now key' expected =>
    decide (key' = key) && (removeExpiredUploadSessionIfMatches now sessions key' expected).1
  | .reject _ _ _ _ _ | .recover _ _ => false

end UploadCommand

/-- The table under its commands, from the empty one. -/
def uploadTable (π : Type) [DecidableEq π] (limits : UploadLimits) :
    Machine (UploadSessions π) (UploadCommand π) where
  init := .empty
  step sessions command := some (command.run limits sessions)

/-- What a rejection does: nothing, or it makes a session that awaits confirmation a rejected
    one, with its expiration. -/
theorem rejectUploadSession_outcome {ttl now : ℤ} {tp sp : π} {r : RejectUploadSession π}
    (h : rejectUploadSession ttl now t key tp sp = .ok (r, t')) :
    t' = t ∨ ∃ row exp, expirationTime now ttl = .ok exp ∧
      t.get key = some row ∧ row.session.state = .awaitingConfirmation ∧
      t' = t.put key ⟨{ row.session with state := .rejected }, exp⟩ := by
  unfold rejectUploadSession at h
  split at h
  · cases h
    exact Or.inl rfl
  rename_i sess exp hg
  split_ifs at h with hb hr haw
  · cases h
    exact Or.inl rfl
  · cases h
    exact Or.inl rfl
  · cases h
    exact Or.inl rfl
  · obtain ⟨exp', ht, hx⟩ := exists_of_map_eq_ok h
    cases hx
    exact Or.inr ⟨_, exp', ht, hg, by simpa using haw, rfl⟩

/-- A command keeps every row that it does not delete. -/
theorem run_keeps (limits : UploadLimits) {cmd : UploadCommand π} {row : UploadRow π}
    (hg : t.get key = some row) (hk : cmd.removes limits t key = false) :
    ∃ row', (cmd.run limits t).get key = some row' ∧ Keeps row.session row'.session := by
  have hs : ∀ t' : UploadSessions π, t' = t →
      ∃ row', t'.get key = some row' ∧ Keeps row.session row'.session := by
    rintro t' rfl
    exact ⟨row, hg, .refl _⟩
  cases cmd with
  | save now ttl key' p =>
    simp only [UploadCommand.removes] at hk
    simp only [UploadCommand.run]
    cases hsv : saveUploadSession { limits with uploadTtlMs := ttl } now t key' p with
    | error e => exact hs _ rfl
    | ok ans =>
      simp only [hsv, hg, Option.any_some] at hk
      have hsw : (swept t now).get key = some row := by
        rw [swept, Table.get_deleteWhere, hg, Option.bind_some, if_neg (by simp [hk])]
      obtain ⟨-, heq⟩ | ⟨-, exp, -, heq, ha, -⟩ := saveUploadSession_outcome hsv
      · simp only [heq]
        exact ⟨row, hsw, .refl _⟩
      simp only [heq]
      by_cases hky : key = key'
      · subst hky
        exact ⟨⟨p, exp⟩, by simp, .of_merges (ha.merges row hsw)⟩
      · exact ⟨row, Table.get_put_of_ne hsw hky, .refl _⟩
  | reject now ttl key' tp sp =>
    simp only [UploadCommand.run]
    cases hr : rejectUploadSession ttl now t key' tp sp with
    | error e => exact hs _ rfl
    | ok ans =>
      obtain heq | ⟨row', exp, -, hg', haw, heq⟩ := rejectUploadSession_outcome hr
      · exact hs _ heq
      simp only [heq]
      by_cases hky : key = key'
      · subst hky
        rw [hg] at hg'
        cases hg'
        exact ⟨⟨{ row.session with state := .rejected }, exp⟩, by simp,
          .of_state (by rw [haw]; rfl) _⟩
      · exact ⟨row, Table.get_put_of_ne hg hky, .refl _⟩
  | removeIfMatches key' want =>
    simp only [UploadCommand.removes, removeUploadSessionIfMatches] at hk
    simp only [UploadCommand.run, removeUploadSessionIfMatches]
    split_ifs at hk ⊢ with hm
    · have hky : key ≠ key' := by
        rintro rfl
        simp at hk
      exact ⟨row, by rw [Table.get_erase, if_neg hky, hg], .refl _⟩
    · exact hs _ rfl
  | removeExpiredIfMatches now key' want =>
    simp only [UploadCommand.removes, removeExpiredUploadSessionIfMatches] at hk
    simp only [UploadCommand.run, removeExpiredUploadSessionIfMatches]
    split_ifs at hk ⊢ with hd
    · exact hs _ rfl
    have hky : key ≠ key' := by
      rintro rfl
      simp at hk
    exact ⟨row, by rw [Table.get_erase, if_neg hky, hg], .refl _⟩
  | recover now ttl =>
    simp only [UploadCommand.run]
    cases hrc : recoverUploadSessions { limits with uploadTtlMs := ttl } now t with
    | error e => exact hs _ rfl
    | ok t' =>
      obtain ⟨exp, -, hrw⟩ := recoverUploadSessions_get hrc
      exact ⟨row.recover exp, by rw [hrw, hg, Option.map_some], .recover row exp⟩

namespace UploadTable

variable {limits : UploadLimits}

theorem save (h : UploadTable limits t) {now ttl : ℤ} {key : UploadSessionKey}
    {p : StoredUploadSession π} {r : StoreUploadSession}
    (hsv : saveUploadSession { limits with uploadTtlMs := ttl } now t key p =
      .ok (r, t')) : UploadTable limits t' := by
  have hs := h.swept now
  obtain ⟨-, rfl⟩ | ⟨-, exp, -, rfl, ha, hr⟩ := saveUploadSession_outcome hsv
  · exact hs
  refine hs.put ?_ ha.alone
  cases hg : (StateStore.swept t now).get key with
  | some row => exact hs.quota.put_of_get hg _
  | none => exact hs.quota.put_of_room _ (hr hg).1 (hr hg).2

/-- Every command keeps what holds of the table. -/
theorem run (h : UploadTable limits t) (cmd : UploadCommand π) :
    UploadTable limits (cmd.run limits t) := by
  cases cmd with
  | save now ttl key p =>
    simp only [UploadCommand.run]
    split
    · exact h
    · rename_i hs
      exact h.save hs
  | reject now ttl key tp sp =>
    simp only [UploadCommand.run]
    split
    · exact h
    rename_i hr
    obtain rfl | ⟨row, exp, -, hg, -, rfl⟩ := rejectUploadSession_outcome hr
    · exact h
    · refine h.put (h.quota.put_of_get hg _) fun hl => ?_
      cases hl
  | removeIfMatches key want =>
    simp only [UploadCommand.run, removeUploadSessionIfMatches]
    split_ifs
    · exact h.erase key
    · exact h
  | removeExpiredIfMatches now key want =>
    simp only [UploadCommand.run, removeExpiredUploadSessionIfMatches]
    split_ifs
    · exact h
    · exact h.erase key
  | recover now ttl =>
    simp only [UploadCommand.run]
    split
    · exact h
    · rename_i hrc
      exact h.recover hrc

end UploadTable

/-- Every sequence of commands: a row that no command deletes is there and has kept its
    session, no two sessions that are not terminal share a staging path, and the capacities
    are kept. -/
theorem upload_rows_stable (π : Type) [DecidableEq π] (limits : UploadLimits) :
    (∀ t t' key row, (uploadTable π limits).Reachable (fun _ _ => True) t →
      (uploadTable π limits).Steps (fun u command => command.removes limits u key = false) t t' →
      t.get key = some row →
      ∃ row', t'.get key = some row' ∧ Keeps row.session row'.session) ∧
    ∀ t, (uploadTable π limits).Reachable (fun _ _ => True) t →
      (∀ key key' row row', t.get key = some row → t.get key' = some row' → key ≠ key' →
        row.session.state.isTerminal = false → row'.session.state.isTerminal = false →
        row.session.stagePath ≠ row'.session.stagePath) ∧
      t.countWhere (fun _ _ => true) ≤ limits.uploadCapacity ∧
      ∀ owner, t.countWhere (fun key _ => decide (key.owner = owner)) ≤ limits.uploadPerOwner := by
  refine ⟨fun t t' key row _ hst hg => ?_, fun t ht => ?_⟩
  · refine hst.follows (fun t => t.get key) (fun row row' => Keeps row.session row'.session)
      (fun row => .refl row.session) ?_ ?_ hg
    · intro row₁ row₂ row₃ h h'
      exact h.trans h'
    intro s command s' row hk hs hg
    cases hs
    exact run_keeps limits hg hk
  · have htb : UploadTable limits t := by
      refine ht.invariant .empty fun s command s' _ h _ hs => ?_
      cases hs
      exact h.run command
    exact ⟨fun key key' row row' hg hg' hne hl hl' hp =>
      hne (htb.alone key key' row row' hg hg' hl hl' hp), htb.quota.rows,
      htb.quota.owned⟩

end DufsRam.StateStore
