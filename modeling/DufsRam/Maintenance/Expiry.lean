import Mathlib
import DufsRam.Lib.Keyset
import DufsRam.Maintenance.Handshake
import DufsRam.StateStore.Clock
import DufsRam.StateStore.UploadHistory

/-!
# Expired sessions and the clock of the store

Maintenance lists expired upload sessions and removes them later, one by one
(`state_store/upload.rs`, lines 173-239 and 333-365). In between the owner of a session may save
it again, perhaps after it was removed, with exactly the contents that were listed. The removal
must spare that session. It compares the expiration stamp, and the stamps of later saves are
later, since the clock of the store never goes back.

The store and its clock are one state here, and every command reads the clock as its first
step. Recovery runs before the store is opened for commands, so it does not come after a listing.

Results:
* `timed_outcome`: what a command that reads the clock leaves.
* `Later.step`: once a session is saved again, its stamp stays later than the listed one.
* `resaved_session_spared`: over every run between the listing, the save and the removal.
-/

namespace DufsRam.Maintenance

open StateStore RootedFs

/-! ## Model -/

/-- `ORDER BY owner_digest, upload_id`. -/
def sessionKeyOrder (key : UploadSessionKey) : ℕ ×ₗ ℕ :=
  toLex (key.owner.toNat, key.id.toNat)

theorem sessionKeyOrder_injective : Function.Injective sessionKeyOrder := by
  rintro ⟨owner, id⟩ ⟨owner', id'⟩ h
  simp only [sessionKeyOrder, EmbeddingLike.apply_eq_iff_eq, Prod.mk.injEq, BitVec.toNat_inj] at h
  simp [h]

instance : LinearOrder UploadSessionKey :=
  LinearOrder.lift' sessionKeyOrder sessionKeyOrder_injective

/-- `expired_upload_sessions` (`state_store/upload.rs`, lines 173-220): a page of the rows that
    have expired, in the order of their keys. -/
def expiredUploadSessions (now : ℤ) (sessions : UploadSessions Path)
    (after : Option UploadSessionKey) (limit : ℕ) : List ExpiredUploadSession :=
  let expired := sessions.deleteWhere fun _ row =>
    !(decide (row.expiresAtMs ≤ now) && decide (row.session.state ≠ .commitStarted))
  (Keyset.page limit after expired).map fun row => ⟨row.1, row.2⟩

/-- The store as the worker holds it: the clock and the table. -/
structure TimedStore where
  clock : StoreClock
  sessions : UploadSessions Path

variable {β : Type}

/-- A command that reads the clock and then runs on the table; one that fails leaves the table
    alone. -/
def TimedStore.timed (store : TimedStore) (reading : Reading)
    (command : ℤ → UploadSessions Path → Except String (β × UploadSessions Path)) :
    Except String β × TimedStore :=
  match store.clock.observe reading.wallNowMs reading.monotonicNow with
  | (.error message, clock) => (.error message, { store with clock := clock })
  | (.ok now, clock) =>
    match command now store.sessions with
    | .error message => (.error message, { store with clock := clock })
    | .ok (answer, sessions) => (.ok answer, ⟨clock, sessions⟩)

namespace TimedStore

/-- The command `expired_upload_sessions`. -/
def expired (store : TimedStore) (reading : Reading) (after : Option UploadSessionKey)
    (limit : ℕ) : Except String (List ExpiredUploadSession) × TimedStore :=
  store.timed reading fun now sessions =>
    .ok (expiredUploadSessions now sessions after limit, sessions)

/-- The command `expired_upload_session_matches`. -/
def stillMatches (store : TimedStore) (reading : Reading) (expected : ExpiredUploadSession) :
    Except String Bool × TimedStore :=
  store.timed reading fun now sessions =>
    .ok (expiredUploadSessionMatches now sessions expected, sessions)

/-- The command `remove_expired_upload_session_if_matches`. -/
def removeExpired (store : TimedStore) (reading : Reading) (expected : ExpiredUploadSession) :
    Except String Bool × TimedStore :=
  store.timed reading fun now sessions =>
    .ok (removeExpiredUploadSessionIfMatches now sessions expected.key expected.row)

/-- The command `save_upload_session`. -/
def save (limits : UploadLimits) (store : TimedStore) (reading : Reading) (ttlMs : ℤ)
    (key : UploadSessionKey) (proposed : StoredUploadSession Path) :
    Except String StoreUploadSession × TimedStore :=
  store.timed reading fun now sessions =>
    saveUploadSession { limits with uploadTtlMs := ttlMs } now sessions key proposed

/-- The command `reject_upload_session`. -/
def reject (store : TimedStore) (reading : Reading) (ttlMs : ℤ) (key : UploadSessionKey)
    (targetPath stagePath : Path) : Except String (RejectUploadSession Path) × TimedStore :=
  store.timed reading fun now sessions =>
    rejectUploadSession ttlMs now sessions key targetPath stagePath

end TimedStore

/-- What happens to the store after the listing: a command that only reads the clock, or one
    that may change the table. -/
inductive StoreEvent
  | observe (reading : Reading)
  | save (reading : Reading) (ttlMs : ℤ) (key : UploadSessionKey)
      (proposed : StoredUploadSession Path)
  | reject (reading : Reading) (ttlMs : ℤ) (key : UploadSessionKey) (targetPath stagePath : Path)
  | removeIfMatches (key : UploadSessionKey) (expected : StoredUploadSession Path)
  | removeExpired (reading : Reading) (expected : ExpiredUploadSession)

/-- The time to live of an event, if it has one, is positive. -/
def StoreEvent.positiveTtl : StoreEvent → Prop
  | .save _ ttlMs _ _ | .reject _ ttlMs _ _ _ => 0 < ttlMs
  | .observe _ | .removeIfMatches _ _ | .removeExpired _ _ => True

/-- The store after an event. -/
def TimedStore.step (limits : UploadLimits) (store : TimedStore) : StoreEvent → TimedStore
  | .observe reading => (store.timed reading fun _ sessions => .ok ((), sessions)).2
  | .save reading ttlMs key proposed => (store.save limits reading ttlMs key proposed).2
  | .reject reading ttlMs key targetPath stagePath =>
    (store.reject reading ttlMs key targetPath stagePath).2
  | .removeIfMatches key expected =>
    { store with sessions := (removeUploadSessionIfMatches store.sessions key expected).2 }
  | .removeExpired reading expected => (store.removeExpired reading expected).2

/-- The store from a given state on. -/
def timedStore (limits : UploadLimits) (store : TimedStore) : Machine TimedStore StoreEvent where
  init := store
  step store event := some (store.step limits event)

/-- The runs of the store from a state on, with positive times to live. -/
def Follows (limits : UploadLimits) (store store' : TimedStore) : Prop :=
  (timedStore limits store).Reachable (fun _ event => event.positiveTtl) store'

/-! ## What a command leaves -/

/-- A command that reads the clock: the clock does not go back; the table is as before, or it is
    what the command leaves at the time that is now the last one of the clock. -/
theorem timed_outcome (store : TimedStore) (r : Reading)
    (cmd : ℤ → UploadSessions Path → Except String (β × UploadSessions Path)) :
    store.clock.lastMs ≤ (store.timed r cmd).2.clock.lastMs ∧
      ((∃ msg, (store.timed r cmd).1 = .error msg) ∧
          (store.timed r cmd).2.sessions = store.sessions ∨
        ∃ a, (store.timed r cmd).1 = .ok a ∧
          cmd (store.timed r cmd).2.clock.lastMs store.sessions =
            .ok (a, (store.timed r cmd).2.sessions)) := by
  obtain ⟨hl, hlt⟩ := store.clock.lastMs_observe r.wallNowMs r.monotonicNow
  unfold TimedStore.timed
  rcases ho : store.clock.observe r.wallNowMs r.monotonicNow with
    ⟨msg | now, c⟩
  · rw [ho] at hl
    exact ⟨hl, .inl ⟨⟨msg, rfl⟩, rfl⟩⟩
  rw [ho] at hl hlt
  have hn : now = c.lastMs := hlt now rfl
  dsimp only
  rcases hc : cmd now store.sessions with msg | ⟨a, ses⟩
  · exact ⟨hl, .inl ⟨⟨msg, rfl⟩, rfl⟩⟩
  · refine ⟨hl, .inr ⟨a, rfl, ?_⟩⟩
    rw [← hn]
    exact hc

variable {now : ℤ} {listed : ExpiredUploadSession} {key' : UploadSessionKey}
  {t : UploadSessions Path} {limits : UploadLimits}

theorem mem_expiredUploadSessions {ses : UploadSessions Path} {aft : Option UploadSessionKey}
    {n : ℕ} (h : listed ∈ expiredUploadSessions now ses aft n) :
    listed.row.expiresAtMs ≤ now := by
  obtain ⟨row, hr, rfl⟩ := List.mem_map.mp h
  have hm := (Keyset.mem_ordered.mp (List.mem_of_mem_take hr)).1
  have he := (List.mem_filter.mp hm).2
  simp only [Bool.not_not, Bool.and_eq_true, decide_eq_true_eq] at he
  exact he.1

/-! ## Later stamps -/

theorem lt_expirationTime {ttl expiresAt : ℤ} (h : expirationTime now ttl = .ok expiresAt)
    (hp : 0 < ttl) : now < expiresAt := by
  unfold expirationTime at h
  split_ifs at h
  cases h
  omega

/-- Every row under the key is one of before or expires after `now`. -/
def Restamps (key : UploadSessionKey) (now : ℤ) (before after : UploadSessions Path) : Prop :=
  ∀ row, after.get key = some row → before.get key = some row ∨ now < row.expiresAtMs

theorem Restamps.of_put {key : UploadSessionKey} {bef : UploadSessions Path}
    (hk : ∀ row, t.get key = some row → bef.get key = some row) {row : UploadRow Path}
    (hl : now < row.expiresAtMs) : Restamps key now bef (t.put key' row) := by
  intro row' hg
  obtain ⟨-, rfl⟩ | ⟨-, hold⟩ := Table.get_put_cases hg
  · exact .inr hl
  · exact .inl (hk row' hold)

theorem Restamps.of_erase (key key' : UploadSessionKey) (now : ℤ) (t : UploadSessions Path) :
    Restamps key now t (t.erase key') :=
  fun _ hg => .inl (Table.get_of_get_erase hg).2

theorem saveUploadSession_restamps {t' : UploadSessions Path} {p : StoredUploadSession Path}
    {r : StoreUploadSession} (hp : 0 < limits.uploadTtlMs)
    (h : saveUploadSession limits now t key' p = .ok (r, t')) (key : UploadSessionKey) :
    Restamps key now t t' := by
  obtain ⟨-, rfl⟩ | ⟨-, expiresAt, ht, rfl, -⟩ := saveUploadSession_outcome h
  · exact fun row hg => .inl (get_of_get_swept hg)
  · exact .of_put (fun row hg => get_of_get_swept hg) (lt_expirationTime ht hp)

theorem rejectUploadSession_restamps {ttl : ℤ} {t' : UploadSessions Path}
    {tp sp : Path} {r : RejectUploadSession Path} (hp : 0 < ttl)
    (h : rejectUploadSession ttl now t key' tp sp = .ok (r, t'))
    (key : UploadSessionKey) : Restamps key now t t' := by
  obtain rfl | ⟨row, expiresAt, ht, -, -, rfl⟩ := rejectUploadSession_outcome h
  · exact fun row hg => .inl hg
  · exact .of_put (fun row hg => hg) (lt_expirationTime ht hp)

theorem removeExpired_restamps (now : ℤ) (t : UploadSessions Path) (want : ExpiredUploadSession)
    (key : UploadSessionKey) : Restamps key now t
      (removeExpiredUploadSessionIfMatches now t want.key want.row).2 := by
  unfold removeExpiredUploadSessionIfMatches
  split_ifs
  · exact fun row hg => .inl hg
  · exact .of_erase key want.key now t

/-- The clock has passed `expiresAt`, and the row under the key, if there is one, expires after
    it. -/
structure Later (key : UploadSessionKey) (expiresAt : ℤ) (store : TimedStore) : Prop where
  clock : expiresAt ≤ store.clock.lastMs
  row : ∀ row, store.sessions.get key = some row → expiresAt < row.expiresAtMs

variable {key : UploadSessionKey} {expiresAt : ℤ} {store : TimedStore}

/-- A command that only writes later stamps keeps a stamp late. -/
theorem Later.timed (h : Later key expiresAt store) (r : Reading)
    {cmd : ℤ → UploadSessions Path → Except String (β × UploadSessions Path)}
    (hc : ∀ now t a t', cmd now t = .ok (a, t') → Restamps key now t t') :
    Later key expiresAt (store.timed r cmd).2 := by
  obtain ⟨hl, ⟨-, hs⟩ | ⟨a, -, hr⟩⟩ := timed_outcome store r cmd
  · refine ⟨h.clock.trans hl, fun row hg => ?_⟩
    rw [hs] at hg
    exact h.row row hg
  · refine ⟨h.clock.trans hl, fun row hg => ?_⟩
    obtain hold | hn := hc _ _ _ _ hr row hg
    · exact h.row row hold
    · exact lt_of_le_of_lt (h.clock.trans hl) hn

/-- Every event keeps a stamp late. -/
theorem Later.step (h : Later key expiresAt store) (limits : UploadLimits) {e : StoreEvent}
    (hp : e.positiveTtl) : Later key expiresAt (store.step limits e) := by
  cases e with
  | observe r =>
    refine h.timed r ?_
    rintro now t a t' ⟨⟩ row hg
    exact .inl hg
  | save r ttl key' p =>
    have hp' : 0 < ({ limits with uploadTtlMs := ttl } : UploadLimits).uploadTtlMs := hp
    exact h.timed r fun now t a t' hs => saveUploadSession_restamps hp' hs key
  | reject r ttl key' tp sp =>
    exact h.timed r fun now t a t' hr =>
      rejectUploadSession_restamps hp hr key
  | removeIfMatches key' want =>
    refine ⟨h.clock, fun row hg => ?_⟩
    simp only [TimedStore.step, removeUploadSessionIfMatches] at hg
    split_ifs at hg
    · exact h.row row (Table.get_of_get_erase hg).2
    · exact h.row row hg
  | removeExpired r want =>
    refine h.timed r ?_
    rintro now t a t' hrn
    obtain ⟨rfl, rfl⟩ := Prod.mk.inj (Except.ok.inj hrn)
    exact removeExpired_restamps now t want key

theorem lastMs_step (limits : UploadLimits) (store : TimedStore) (e : StoreEvent) :
    store.clock.lastMs ≤ (store.step limits e).clock.lastMs := by
  cases e with
  | observe r | save r | reject r | removeExpired r =>
    exact (timed_outcome store r _).1
  | removeIfMatches key' want => exact le_rfl

theorem Follows.lastMs {store store' : TimedStore} (h : Follows limits store store') :
    store.clock.lastMs ≤ store'.clock.lastMs := by
  refine Machine.Reachable.invariant (I := fun s => store.clock.lastMs ≤ s.clock.lastMs) le_rfl ?_ h
  intro s e s' _ hle _ hs
  cases hs
  exact hle.trans (lastMs_step limits s e)

theorem Follows.later {store store' : TimedStore} (h : Follows limits store store')
    (hl : Later key expiresAt store) :
    Later key expiresAt store' := by
  refine Machine.Reachable.invariant hl ?_ h
  intro s e s' _ hl hp hs
  cases hs
  exact hl.step limits hp

/-- A command that changes nothing and answers `false`. -/
theorem timed_refuses {cmd : ℤ → UploadSessions Path → Except String (Bool × UploadSessions Path)}
    (hc : ∀ now, cmd now store.sessions = .ok (false, store.sessions)) (r : Reading) :
    (∀ res, (store.timed r cmd).1 = .ok res → res = false) ∧
      (store.timed r cmd).2.sessions = store.sessions := by
  obtain ⟨-, ⟨⟨msg, he⟩, hs⟩ | ⟨a, ha, hrn⟩⟩ :=
    timed_outcome store r cmd
  · refine ⟨fun res hr => ?_, hs⟩
    rw [he] at hr
    cases hr
  · rw [hc, Except.ok.injEq, Prod.mk.injEq] at hrn
    refine ⟨fun res hr => ?_, hrn.2.symm⟩
    rw [ha, ← hrn.1] at hr
    exact (Except.ok.inj hr).symm

/-- A row with a later stamp is not the listed one. -/
theorem Later.spares (h : Later listed.key listed.row.expiresAtMs store) :
    store.sessions.get listed.key ≠ some listed.row :=
  fun hg => lt_irrefl _ (h.row listed.row hg)

theorem Later.stillMatches (h : Later listed.key listed.row.expiresAtMs store) (r : Reading) :
    (∀ res, (store.stillMatches r listed).1 = .ok res → res = false) ∧
      (store.stillMatches r listed).2.sessions = store.sessions := by
  refine timed_refuses (fun now => ?_) r
  simp [expiredUploadSessionMatches, h.spares]

theorem Later.removeExpired (h : Later listed.key listed.row.expiresAtMs store) (r : Reading) :
    (∀ res, (store.removeExpired r listed).1 = .ok res → res = false) ∧
      (store.removeExpired r listed).2.sessions = store.sessions := by
  refine timed_refuses (fun now => ?_) r
  rw [removeExpiredUploadSessionIfMatches, if_pos (.inr h.spares)]

/-- What is listed has expired by the time of the listing. -/
theorem expired_le {st listedAt : TimedStore} {r : Reading}
    {aft : Option UploadSessionKey} {n : ℕ} {page : List ExpiredUploadSession}
    (hls : st.expired r aft n = (.ok page, listedAt)) (hl : listed ∈ page) :
    listed.row.expiresAtMs ≤ listedAt.clock.lastMs := by
  unfold TimedStore.expired at hls
  obtain ⟨-, ⟨⟨msg, he⟩, -⟩ | ⟨a, ha, hr⟩⟩ := timed_outcome st r
    fun now ses => .ok (expiredUploadSessions now ses aft n, ses)
  · rw [hls] at he
    cases he
  rw [hls] at ha hr
  rw [← (Except.ok.inj ha), Except.ok.injEq, Prod.mk.injEq] at hr
  rw [← hr.1] at hl
  exact mem_expiredUploadSessions hl

/-- A save that stores writes a later stamp. -/
theorem later_of_save {bef saved : TimedStore} {r : Reading} {ttl : ℤ} (hps : 0 < ttl)
    {p : StoredUploadSession Path} {a : StoreUploadSession}
    (hst : a.stored = true)
    (hs : bef.save limits r ttl key p = (.ok a, saved))
    (hc : expiresAt ≤ bef.clock.lastMs) : Later key expiresAt saved := by
  unfold TimedStore.save at hs
  obtain ⟨hl, ⟨⟨msg, he⟩, -⟩ | ⟨a', ha, hr⟩⟩ := timed_outcome bef r fun now ses =>
      saveUploadSession { limits with uploadTtlMs := ttl } now ses key p
  · rw [hs] at he
    cases he
  rw [hs] at ha hr hl
  obtain ⟨⟩ := ha
  have hp : expiresAt ≤ saved.clock.lastMs := hc.trans hl
  refine ⟨hp, fun row hg => ?_⟩
  obtain ⟨hn, -⟩ | ⟨-, stamp, htm, ht, -⟩ := saveUploadSession_outcome hr
  · rw [hst] at hn
    cases hn
  have hg' : saved.sessions.get key = some ⟨p, stamp⟩ := by
    rw [show saved.sessions = _ from ht, Table.get_put, if_pos rfl]
  rw [hg'] at hg
  cases hg
  exact lt_of_le_of_lt hp (lt_expirationTime htm hps)

/-- A listed session that is saved again is spared. Between the listing, the save and the end of
    the run, commands with positive times to live may come in any number, and remove and save
    the session as they like. -/
theorem resaved_session_spared (limits : UploadLimits)
    (start listedAt before saved last : TimedStore) (reading reading' reading'' : Reading)
    (after : Option UploadSessionKey) (limit : ℕ) (page : List ExpiredUploadSession)
    (hlist : start.expired reading after limit = (.ok page, listedAt))
    (listed : ExpiredUploadSession) (hlisted : listed ∈ page)
    (hbefore : Follows limits listedAt before)
    (ttlMs : ℤ) (hpos : 0 < ttlMs) (proposed : StoredUploadSession Path)
    (answer : StoreUploadSession) (hstored : answer.stored = true)
    (hsave : before.save limits reading' ttlMs listed.key proposed = (.ok answer, saved))
    (hlast : Follows limits saved last) :
    (∀ result, (last.stillMatches reading'' listed).1 = .ok result → result = false) ∧
      (last.stillMatches reading'' listed).2.sessions = last.sessions ∧
      (∀ result, (last.removeExpired reading'' listed).1 = .ok result → result = false) ∧
      (last.removeExpired reading'' listed).2.sessions = last.sessions := by
  have hc := (expired_le hlist hlisted).trans hbefore.lastMs
  have hl := hlast.later (later_of_save hpos hstored hsave hc)
  obtain ⟨hf, hs⟩ := hl.stillMatches reading''
  obtain ⟨hf', hs'⟩ := hl.removeExpired reading''
  exact ⟨hf, hs, hf', hs'⟩

/-- A session that expired at 50, in a store whose clock starts at 100. -/
def expiredAtFifty : ExpiredUploadSession :=
  ⟨⟨1, 2⟩, ⟨⟨["a"], ["b"], 5, 5, .running, none, none⟩, 50⟩⟩

def startAtHundred : TimedStore :=
  ⟨.new ⟨100, by decide⟩ 0, Table.empty.put expiredAtFifty.key expiredAtFifty.row⟩

/-- The session is saved again with the contents that were listed. -/
theorem resaved_session_spared_unchanged :
    let saved := (startAtHundred.save ⟨9, 9, 0⟩ ⟨none, 0⟩ 10 expiredAtFifty.key
      expiredAtFifty.row.session).2
    (saved.removeExpired ⟨none, 10 ^ 9⟩ expiredAtFifty).2.sessions = saved.sessions :=
  (resaved_session_spared ⟨9, 9, 0⟩ startAtHundred startAtHundred startAtHundred _ _ ⟨none, 0⟩
    ⟨none, 0⟩ ⟨none, 10 ^ 9⟩ none 1 [expiredAtFifty] rfl expiredAtFifty
    (List.mem_singleton.mpr rfl) .init 10 (by decide) expiredAtFifty.row.session .unchanged rfl rfl
    .init).2.2.2

end DufsRam.Maintenance
