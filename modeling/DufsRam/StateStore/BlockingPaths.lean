import Mathlib
import DufsRam.Lib.Keyset
import DufsRam.StateStore.Purge
import DufsRam.StateStore.Upload

/-!
# Paths that durable state blocks

Model of `query_state_blocking_paths` (`state_store/purge.rs`, lines 332-420): the target and
stage of every upload that is not terminal, the target of every prepared purge job and the
trash path of every purge job, read in pages by a cursor of four parts. A stored row that
does not decode makes a query fail and is left to the caller.

Results:
* `StateTables.statePathRows_nodup`: the cursor tells the entries apart.
* `mem_statePaths_target`, `mem_statePaths_purgeTarget`: the entries of the targets.
-/

namespace DufsRam.StateStore

/-- `StatePathCursor` (`model.rs`, lines 299-305): kind 0 for uploads and 1 for purge jobs,
    slot 0 for targets and 1 for stages and trash paths. -/
structure StatePathCursor where
  kind : Fin 2
  owner : Digest
  id : Uuid
  slot : Fin 2
deriving DecidableEq

namespace StatePathCursor

/-- `ORDER BY kind, owner_digest, item_id, slot`. Digests and ids are compared byte by byte,
    the first byte first. -/
def order (cursor : StatePathCursor) : Fin 2 ×ₗ ℕ ×ₗ ℕ ×ₗ Fin 2 :=
  toLex (cursor.kind, toLex (cursor.owner.toNat, toLex (cursor.id.toNat, cursor.slot)))

theorem order_injective : Function.Injective order := by
  rintro ⟨kind, owner, id, slot⟩ ⟨kind', owner', id', slot'⟩ h
  simp only [order, EmbeddingLike.apply_eq_iff_eq, Prod.mk.injEq, BitVec.toNat_inj] at h
  simp [h]

instance : LinearOrder StatePathCursor := LinearOrder.lift' order order_injective

/-- There are finitely many cursors. -/
instance : Finite StatePathCursor := by
  have hinj : Function.Injective fun cursor : StatePathCursor =>
      (cursor.kind, cursor.owner.toFin, cursor.id.toFin, cursor.slot) := by
    rintro ⟨kind, owner, id, slot⟩ ⟨kind', owner', id', slot'⟩ h
    simp only [Prod.mk.injEq, BitVec.toFin_inj] at h
    simp only [h]
  exact Finite.of_injective _ hinj

end StatePathCursor

/-- `StateBlockingPath` (`model.rs`, lines 307-315). -/
structure StateBlockingPath (π : Type) where
  path : π
  allowsExactReplacement : Bool
deriving DecidableEq

/-- `StatePathPage` (`model.rs`, lines 317-321). -/
structure StatePathPage (π : Type) where
  paths : List (StateBlockingPath π)
  next : Option StatePathCursor
deriving DecidableEq

/-- The two tables that the query reads. -/
structure StateTables (π : Type) where
  sessions : UploadSessions π
  jobs : PurgeJobs π

variable {π : Type}

namespace StateTables

/-- One of the four `SELECT`s. -/
def select {κ ρ : Type} (t : Table κ ρ) (p : ρ → Bool) (cursor : κ → StatePathCursor)
    (path : ρ → StateBlockingPath π) : List (StatePathCursor × StateBlockingPath π) :=
  (t.rows.filter fun row => p row.2).map fun row => (cursor row.1, path row.2)

def uploadCursor (slot : Fin 2) (key : UploadSessionKey) : StatePathCursor :=
  ⟨0, key.owner, key.id, slot⟩

def purgeCursor (slot : Fin 2) (key : PurgeJobKey) : StatePathCursor :=
  ⟨1, key.owner, key.id, slot⟩

/-- The `UNION ALL` (lines 360-375). -/
def statePathRows (t : StateTables π) : List (StatePathCursor × StateBlockingPath π) :=
  select t.sessions (fun row => !row.session.state.isTerminal) (uploadCursor 0)
      (fun row => ⟨row.session.targetPath, decide (row.session.state = .running)⟩) ++
    select t.sessions (fun row => !row.session.state.isTerminal) (uploadCursor 1)
      (fun row => ⟨row.session.stagePath, false⟩) ++
    select t.jobs (fun row => decide (row.state = .prepared)) (purgeCursor 0)
      (fun row => ⟨row.targetPath, false⟩) ++
    select t.jobs (fun _ => true) (purgeCursor 1) (fun row => ⟨row.trashPath, false⟩)

theorem mem_select {κ ρ : Type} {t : Table κ ρ} {p : ρ → Bool} {c : κ → StatePathCursor}
    {path : ρ → StateBlockingPath π} {e : StatePathCursor × StateBlockingPath π} :
    e ∈ select t p c path ↔
      ∃ key row, (key, row) ∈ t.rows ∧ p row = true ∧ e = (c key, path row) := by
  simp only [select, List.mem_map, List.mem_filter, Prod.exists, and_assoc, eq_comm]

theorem select_nodup {κ ρ : Type} (t : Table κ ρ) (p : ρ → Bool) {cursor : κ → StatePathCursor}
    (hc : Function.Injective cursor) (path : ρ → StateBlockingPath π) :
    ((select t p cursor path).map Prod.fst).Nodup := by
  have hk := t.nodupKeys.sublist
    ((List.filter_sublist (p := fun row : κ × ρ => p row.2) (l := t.rows)).map Prod.fst)
  have hm : (select t p cursor path).map Prod.fst =
      ((t.rows.filter fun row => p row.2).map Prod.fst).map cursor := by
    simp [select, List.map_map, Function.comp_def]
  rw [hm]
  exact hk.map hc

theorem uploadCursor_injective (slot : Fin 2) : Function.Injective (uploadCursor slot) := by
  rintro ⟨owner, id⟩ ⟨owner', id'⟩ h
  obtain ⟨-, rfl, rfl, -⟩ := h
  rfl

theorem purgeCursor_injective (slot : Fin 2) : Function.Injective (purgeCursor slot) := by
  rintro ⟨owner, id⟩ ⟨owner', id'⟩ h
  obtain ⟨-, rfl, rfl, -⟩ := h
  rfl

theorem cursor_of_mem_select {κ ρ : Type} {t : Table κ ρ} {p : ρ → Bool}
    {cur : κ → StatePathCursor} {path : ρ → StateBlockingPath π} {c : StatePathCursor}
    (h : c ∈ (select t p cur path).map Prod.fst) : ∃ key, c = cur key := by
  obtain ⟨e, he, rfl⟩ := List.mem_map.mp h
  obtain ⟨key, row, -, -, rfl⟩ := mem_select.mp he
  exact ⟨key, rfl⟩

/-- Kind and slot tell the four `SELECT`s apart. -/
theorem statePathRows_nodup (t : StateTables π) : (t.statePathRows.map Prod.fst).Nodup := by
  simp only [statePathRows, List.map_append]
  refine List.Nodup.append (List.Nodup.append (List.Nodup.append ?_ ?_ ?_) ?_ ?_) ?_ ?_
  · exact select_nodup _ _ (uploadCursor_injective 0) _
  · exact select_nodup _ _ (uploadCursor_injective 1) _
  · intro c h h'
    obtain ⟨key, rfl⟩ := cursor_of_mem_select h
    obtain ⟨key', heq⟩ := cursor_of_mem_select h'
    simp [uploadCursor] at heq
  · exact select_nodup _ _ (purgeCursor_injective 0) _
  · intro c h h'
    obtain ⟨key', rfl⟩ := cursor_of_mem_select h'
    obtain h | h := List.mem_append.mp h
    all_goals
      obtain ⟨key, heq⟩ := cursor_of_mem_select h
      simp [uploadCursor, purgeCursor] at heq
  · exact select_nodup _ _ (purgeCursor_injective 1) _
  · intro c h h'
    obtain ⟨key', rfl⟩ := cursor_of_mem_select h'
    obtain h | h := List.mem_append.mp h
    · obtain h | h := List.mem_append.mp h
      all_goals
        obtain ⟨key, heq⟩ := cursor_of_mem_select h
        simp [uploadCursor, purgeCursor] at heq
    · obtain ⟨key, heq⟩ := cursor_of_mem_select h
      simp [purgeCursor] at heq

/-- `state_paths` (lines 360-375). -/
def statePaths (t : StateTables π) : Table StatePathCursor (StateBlockingPath π) :=
  ⟨t.statePathRows, t.statePathRows_nodup⟩

theorem mem_statePaths_target {t : StateTables π} {key : UploadSessionKey} {row : UploadRow π}
    (hr : t.sessions.get key = some row) (hl : row.session.state.isTerminal = false) :
    (uploadCursor 0 key, ⟨row.session.targetPath, decide (row.session.state = .running)⟩) ∈
      t.statePaths.rows := by
  refine List.mem_append_left _ (List.mem_append_left _ (List.mem_append_left _ ?_))
  exact mem_select.mpr ⟨key, row, Table.get_eq_some_iff.mp hr, by simp [hl], rfl⟩

theorem mem_statePaths_purgeTarget {t : StateTables π} {key : PurgeJobKey} {row : PurgeRow π}
    (hr : t.jobs.get key = some row) (hp : row.state = .prepared) :
    (purgeCursor 0 key, ⟨row.targetPath, false⟩) ∈ t.statePaths.rows := by
  refine List.mem_append_left _ (List.mem_append_right _ ?_)
  exact mem_select.mpr ⟨key, row, Table.get_eq_some_iff.mp hr, by simp [hp], rfl⟩

end StateTables

/-- `query_state_blocking_paths` (lines 332-420). The first page has no cursor to compare
    with. -/
def queryStateBlockingPaths (t : StateTables π) (after : Option StatePathCursor) (limit : ℕ) :
    StatePathPage π :=
  let rows := Keyset.page limit after t.statePaths
  ⟨rows.map Prod.snd, Keyset.next limit rows⟩

end DufsRam.StateStore
