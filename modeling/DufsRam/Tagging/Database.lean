import Mathlib
import DufsRam.Lib.Machine
import DufsRam.Lib.Table

/-!
# The tag database

Model of the tables of `schema/tagging.sql` and of every function of `tagging/db/write.rs` that
changes them. A function that opens a transaction works on a copy of the tables, which is kept only
if every statement and the commit succeed; one without a transaction is a single statement.

Row ids are given as SQLite gives them without `AUTOINCREMENT`: one more than the largest id.

Results:
* `transaction_cases`: a transaction that fails leaves the tables as they were.
* `get_nextRowId`: an id that is given has no row.
* `Database.scanSample_cases`: what a sample does to the tables.
-/

namespace DufsRam.Tagging

open scoped IntOrder

/-! ## Tables -/

/-- `files.status` (`schema/tagging.sql`, line 10). -/
inductive FileStatus where
  | present
  | missing
  | suspect
  | relinked
deriving DecidableEq

/-- `status IN ('present','suspect')`. -/
def FileStatus.isCurrent : FileStatus → Bool
  | .present | .suspect => true
  | .missing | .relinked => false

/-- `Sample::identity` (`tagging/db.rs`, lines 68-72). -/
structure SampleIdentity where
  dev : ℤ
  ino : ℤ
  size : ℤ
  mtimeNs : ℤ
  ctimeNs : ℤ
deriving DecidableEq

/-- `Sample` (`tagging/db.rs`, lines 21-30). -/
structure Sample where
  path : String
  parent : String
  name : String
  identity : SampleIdentity
deriving DecidableEq

/-- A row of `files`; `root_id` is always `main`. -/
structure FileRow where
  path : String
  parent : String
  name : String
  identity : SampleIdentity
  status : FileStatus
  lastSeenGeneration : ℤ
deriving DecidableEq

/-- A row of `tags`. -/
structure TagRow where
  name : String
  color : Option String
deriving DecidableEq

/-- The row of `roots`, without its path. -/
structure Root where
  available : Bool
  scanGeneration : ℤ
  lastScanAt : Option ℤ
  lastError : Option String
deriving DecidableEq

/-- The four tables; the primary key of `file_tags` is the pair of a file and a tag. -/
structure Database where
  root : Root
  files : Table ℤ FileRow
  tags : Table ℤ TagRow
  fileTags : Table (ℤ × ℤ) Unit

/-- `Limits` (`tagging/capacity.rs`, lines 6-13) without the sizes that `storage` looks at. -/
structure Limits where
  files : ℕ
  tags : ℕ
  relations : ℕ
deriving DecidableEq

/-- `MAX_FILE_TAGS` (`tagging/db.rs`, line 14). -/
def maxFileTags : ℕ := 16

/-- `Exhausted`, `TagLimitExceeded`, an `ensure!` that does not hold, and an error of a statement,
    of the commit or of the probes in `storage`. -/
inductive Failure where
  | exhausted
  | tagLimitExceeded
  | refused
  | store
deriving DecidableEq

/-- The id of the next row that is inserted. -/
def nextRowId {ρ : Type*} (t : Table ℤ ρ) : ℤ := t.rows.foldr (fun row id => max row.1 id) 0 + 1

/-- `BEGIN IMMEDIATE … COMMIT`. If the body returns an error, or a statement or the commit fails,
    the transaction is dropped and rolled back. -/
def transaction {α : Type} (fails : Bool) (body : Database → Except Failure (α × Database))
    (db : Database) : Except Failure α × Database :=
  match body db with
  | .error failure => (.error failure, db)
  | .ok (a, db') => if fails then (.error .store, db) else (.ok a, db')

/-- A statement outside a transaction. -/
def statement {α : Type} (fails : Bool) (effect : Database → α × Database) (db : Database) :
    Except Failure α × Database :=
  if fails then (.error .store, db)
  else
    let (a, db') := effect db
    (.ok a, db')

namespace Database

/-- `SELECT COUNT(*) FROM files`. -/
def countFiles (db : Database) : ℕ := db.files.countWhere fun _ _ => true

/-- `SELECT COUNT(*) FROM tags`. -/
def countTags (db : Database) : ℕ := db.tags.countWhere fun _ _ => true

/-- `SELECT COUNT(*) FROM file_tags`. -/
def countFileTags (db : Database) : ℕ := db.fileTags.countWhere fun _ _ => true

/-- `UPDATE files SET status=? WHERE id=?`. -/
def setStatus (db : Database) (id : ℤ) (status : FileStatus) : Database :=
  { db with
    files := db.files.updateWhere (fun k _ => decide (k = id)) fun row =>
      { row with status := status } }

/-! ## Scans -/

/-- A sample, whether one of its statements fails, and the error of `storage` if it is called. -/
structure ScanItem where
  sample : Sample
  statementFails : Bool
  storage : Option Failure
deriving DecidableEq

/-- The newest current row of a path (`tagging/db/write.rs`, lines 15-17). -/
def currentRow (db : Database) (path : String) : Option (ℤ × FileRow) :=
  (db.files.rows.filter fun row =>
    decide (row.2.path = path) && row.2.status.isCurrent).argmax Prod.fst

/-- Lines 46-57. -/
def insertSample (limits : Limits) (generation : ℤ) (item : ScanItem) (wasKnown : Bool)
    (db : Database) (retained : ℕ) : Except Failure (Database × ℕ) :=
  if limits.files ≤ retained then .error .exhausted
  else
    match item.storage with
    | some failure => .error failure
    | none =>
      let sample := item.sample
      let row : FileRow := ⟨sample.path, sample.parent, sample.name, sample.identity,
        if wasKnown then .suspect else .present, generation⟩
      .ok ({ db with files := db.files.put (nextRowId db.files) row }, retained + 1)

/-- The body of the loop of `scan_complete` (lines 14-58). -/
def scanSample (limits : Limits) (generation : ℤ) (item : ScanItem) (db : Database)
    (retained : ℕ) : Except Failure (Database × ℕ) :=
  if item.statementFails then .error .store
  else
    let wasKnown := db.files.any fun _ row => decide (row.path = item.sample.path)
    match db.currentRow item.sample.path with
    | some (id, row) =>
      if row.identity = item.sample.identity then
        .ok ({ db with
          files := db.files.updateWhere (fun k _ => decide (k = id)) fun row =>
            { row with lastSeenGeneration := generation } }, retained)
      else insertSample limits generation item wasKnown (db.setStatus id .missing) retained
    | none => insertSample limits generation item wasKnown db retained

/-- The loop (lines 14-58). -/
def scanLoop (limits : Limits) (generation : ℤ) :
    List ScanItem → Database → ℕ → Except Failure Database
  | [], db, _ => .ok db
  | item :: items, db, retained =>
    match scanSample limits generation item db retained with
    | .error failure => .error failure
    | .ok (db, retained) => scanLoop limits generation items db retained

/-- The sweep (lines 59-60) and the record of the scan (lines 61-62). -/
def finishScan (generation now : ℤ) (db : Database) : Database :=
  { db with
    files := db.files.updateWhere
      (fun _ row => row.status.isCurrent && decide (row.lastSeenGeneration ≠ generation))
      fun row => { row with status := .missing }
    root := ⟨true, generation, some now, none⟩ }

/-- The transaction of `scan_complete` (lines 7-62). -/
def scanBody (limits : Limits) (now : ℤ) (items : List ScanItem) (db : Database) :
    Except Failure (Unit × Database) :=
  let generation := db.root.scanGeneration + 1
  match scanLoop limits generation items db db.countFiles with
  | .error failure => .error failure
  | .ok db => .ok ((), finishScan generation now db)

/-- `scan_complete` (lines 4-66). -/
def scanComplete (limits : Limits) (now : ℤ) (items : List ScanItem) (fails : Bool) :
    Database → Except Failure Unit × Database :=
  transaction fails (scanBody limits now items)

/-- `scan_error` (lines 67-75). -/
def scanError (message : String) (fails : Bool) : Database → Except Failure Unit × Database :=
  statement fails fun db =>
    ((), { db with root := { db.root with available := false, lastError := some message } })

/-! ## Tags -/

/-- `COLLATE NOCASE`: ASCII letters are compared without their case. -/
def sameName (a b : String) : Bool :=
  decide (a.toList.map Char.toLower = b.toList.map Char.toLower)

/-- The transaction of `create_tag` (lines 79-91). A name that is taken is an error of the
    statement. -/
def createTagBody (limits : Limits) (name : String) (color : Option String)
    (storage : Option Failure) (db : Database) : Except Failure (ℤ × Database) :=
  if limits.tags ≤ db.countTags then .error .exhausted
  else
    match storage with
    | some failure => .error failure
    | none =>
      if db.tags.any fun _ tag => sameName tag.name name then .error .store
      else
        let id := nextRowId db.tags
        .ok (id, { db with tags := db.tags.put id ⟨name, color⟩ })

/-- `create_tag` (lines 76-95). -/
def createTag (limits : Limits) (name : String) (color : Option String)
    (storage : Option Failure) (fails : Bool) : Database → Except Failure ℤ × Database :=
  transaction fails (createTagBody limits name color storage)

/-- `update_tag` (lines 96-107). -/
def updateTag (id : ℤ) (name : String) (color : Option String) (fails : Bool) (db : Database) :
    Except Failure Bool × Database :=
  if db.tags.any fun k tag => decide (k ≠ id) && sameName tag.name name &&
      (db.tags.get id).isSome then (.error .store, db)
  else
    statement fails (fun db => ((db.tags.get id).isSome,
      { db with
        tags := db.tags.updateWhere (fun k _ => decide (k = id)) fun _ => ⟨name, color⟩ })) db

/-- `delete_tag` (lines 108-117) with `ON DELETE CASCADE`. -/
def deleteTag (id : ℤ) (fails : Bool) : Database → Except Failure Bool × Database :=
  statement fails fun db =>
    ((db.tags.get id).isSome,
      { db with
        tags := db.tags.erase id
        fileTags := db.fileTags.deleteWhere fun key _ => decide (key.2 = id) })

/-! ## The tags of files -/

/-- How many tags has a file? -/
def tagCount (db : Database) (file : ℤ) : ℕ := db.fileTags.countWhere fun key _ => decide (key.1 = file)

/-- The state of the loops of `mutate_tags`: `retained` and `file_count`. -/
structure MutateState where
  db : Database
  retained : ℕ
  fileCount : ℕ

/-- The body of the inner loop (lines 152-185). -/
def mutateTag (limits : Limits) (storage : ℤ → ℤ → Option Failure) (add : Bool) (file tag : ℤ)
    (st : MutateState) : Except Failure MutateState :=
  if add then
    if (st.db.fileTags.get (file, tag)).isSome then .ok st
    else if maxFileTags ≤ st.fileCount then .error .tagLimitExceeded
    else if limits.relations ≤ st.retained then .error .exhausted
    else
      match storage file tag with
      | some failure => .error failure
      | none => .ok ⟨{ st.db with fileTags := st.db.fileTags.put (file, tag) () },
          st.retained + 1, st.fileCount + 1⟩
  else .ok { st with db := { st.db with fileTags := st.db.fileTags.erase (file, tag) } }

/-- The inner loop. -/
def mutateFile (limits : Limits) (storage : ℤ → ℤ → Option Failure) (add : Bool) (file : ℤ) :
    List ℤ → MutateState → Except Failure MutateState
  | [], st => .ok st
  | tag :: tags, st =>
    match mutateTag limits storage add file tag st with
    | .error failure => .error failure
    | .ok st => mutateFile limits storage add file tags st

/-- The outer loop (lines 143-186). -/
def mutateFiles (limits : Limits) (storage : ℤ → ℤ → Option Failure) (add : Bool)
    (tagIds : List ℤ) : List ℤ → Database → ℕ → Except Failure Database
  | [], db, _ => .ok db
  | file :: files, db, retained =>
    let fileCount := if add then db.tagCount file else 0
    match mutateFile limits storage add file tagIds ⟨db, retained, fileCount⟩ with
    | .error failure => .error failure
    | .ok st => mutateFiles limits storage add tagIds files st.db st.retained

/-- Is the row there, and current? -/
def isCurrent (db : Database) (id : ℤ) : Bool := (db.files.get id).any fun row => row.status.isCurrent

/-- The transaction of `mutate_tags` (lines 121-186). -/
def mutateTagsBody (limits : Limits) (fileIds tagIds : List ℤ) (add : Bool)
    (storage : ℤ → ℤ → Option Failure) (db : Database) : Except Failure (Unit × Database) :=
  if fileIds.all db.isCurrent = false then .error .refused
  else if tagIds.all (fun id => (db.tags.get id).isSome) = false then .error .refused
  else
    match mutateFiles limits storage add tagIds fileIds db db.countFileTags with
    | .error failure => .error failure
    | .ok db => .ok ((), db)

/-- `mutate_tags` (lines 118-190). -/
def mutateTags (limits : Limits) (fileIds tagIds : List ℤ) (add : Bool)
    (storage : ℤ → ℤ → Option Failure) (fails : Bool) : Database → Except Failure Unit × Database :=
  transaction fails (mutateTagsBody limits fileIds tagIds add storage)

/-- `INSERT OR IGNORE INTO file_tags(file_id,tag_id) SELECT ?,tag_id FROM file_tags WHERE file_id=?`
    (line 214). -/
def copyTags (oldId newId : ℤ) (fileTags : Table (ℤ × ℤ) Unit) : Table (ℤ × ℤ) Unit :=
  (fileTags.rows.filter fun row => decide (row.1.1 = oldId)).foldl
    (fun table row => if (table.get (newId, row.1.2)).isSome then table
      else table.put (newId, row.1.2) ()) fileTags

/-- How many tags of the old file has the new one not? (line 209) -/
def additionalTags (db : Database) (oldId newId : ℤ) : ℕ :=
  db.fileTags.countWhere fun key _ =>
    decide (key.1 = oldId) && (db.fileTags.get (newId, key.2)).isNone

/-- The transaction of `relink` (lines 195-226). -/
def relinkBody (oldId newId : ℤ) (db : Database) : Except Failure (Unit × Database) :=
  if (db.files.get oldId).map FileRow.status ≠ some .missing ∨ db.isCurrent newId = false then
    .error .refused
  else if 0 < db.additionalTags oldId newId ∧
      maxFileTags < db.tagCount newId + db.additionalTags oldId newId then
    .error .tagLimitExceeded
  else
    let fileTags := (copyTags oldId newId db.fileTags).deleteWhere
      fun key _ => decide (key.1 = oldId)
    .ok ((), ({ db with fileTags := fileTags }.setStatus oldId .relinked).setStatus newId .present)

/-- `relink` (lines 191-230). -/
def relink (oldId newId : ℤ) (fails : Bool) (db : Database) : Except Failure Unit × Database :=
  if oldId = newId then (.error .refused, db) else transaction fails (relinkBody oldId newId) db

/-- `confirm` (lines 231-242). -/
def confirm (id : ℤ) (fails : Bool) : Database → Except Failure Bool × Database :=
  statement fails fun db =>
    ((db.files.get id).any fun row => decide (row.status = .suspect),
      { db with
        files := db.files.updateWhere
          (fun k row => decide (k = id) && decide (row.status = .suspect))
          fun row => { row with status := .present } })

end Database

/-! ## What a call does -/

theorem transaction_cases {α : Type} (fl : Bool) (body : Database → Except Failure (α × Database))
    (db : Database) :
    (∃ a, (transaction fl body db).1 = .ok a ∧ body db = .ok (a, (transaction fl body db).2)) ∨
      ((∃ fail, (transaction fl body db).1 = .error fail) ∧
        (transaction fl body db).2 = db) := by
  unfold transaction
  cases hb : body db with
  | error fail => exact .inr ⟨⟨fail, rfl⟩, rfl⟩
  | ok r =>
    obtain ⟨a, db'⟩ := r
    cases fl with
    | true => exact .inr ⟨⟨_, rfl⟩, rfl⟩
    | false => exact .inl ⟨a, rfl, rfl⟩

/-- What a transaction keeps if its body does. -/
theorem transaction_keeps {α : Type} {P : Database → Prop} {fl : Bool}
    {body : Database → Except Failure (α × Database)} {db : Database} (hdb : P db)
    (hb : ∀ a db', body db = .ok (a, db') → P db') : P (transaction fl body db).2 := by
  obtain ⟨a, -, hok⟩ | ⟨-, heq⟩ := transaction_cases fl body db
  · exact hb a _ hok
  · rw [heq]
    exact hdb

theorem statement_keeps {α : Type} {P : Database → Prop} {fl : Bool}
    {effect : Database → α × Database} {db : Database} (hdb : P db) (he : P (effect db).2) :
    P (statement fl effect db).2 := by
  cases fl with
  | true => exact hdb
  | false => exact he

theorem lt_nextRowId {ρ : Type*} {t : Table ℤ ρ} {id : ℤ} {row : ρ} (h : t.get id = some row) :
    id < nextRowId t := by
  have hle : ∀ rows : List (ℤ × ρ), (id, row) ∈ rows →
      id ≤ rows.foldr (fun row id => max row.1 id) 0 := by
    intro rows hm
    induction rows with
    | nil => exact absurd hm List.not_mem_nil
    | cons head rows ih =>
      obtain rfl | hm := List.mem_cons.mp hm
      · exact le_max_left _ _
      · exact (ih hm).trans (le_max_right _ _)
  have := hle t.rows (Table.get_eq_some_iff.mp h)
  unfold nextRowId
  omega

@[simp] theorem get_nextRowId {ρ : Type*} (t : Table ℤ ρ) : t.get (nextRowId t) = none := by
  by_contra h
  obtain ⟨row, hr⟩ := Option.ne_none_iff_exists'.mp h
  exact absurd (lt_nextRowId hr) (lt_irrefl _)

namespace Database

variable {db db' : Database} {limits : Limits} {generation : ℤ} {item : ScanItem}
  {retained retained' : ℕ} {path : String} {id : ℤ} {row : FileRow}

theorem get_setStatus (db : Database) (id k : ℤ) (status : FileStatus) :
    (db.setStatus id status).files.get k =
      (db.files.get k).map fun row => if k = id then { row with status := status } else row := by
  simp [setStatus]

theorem currentRow_eq_some (h : db.currentRow path = some (id, row)) :
    db.files.get id = some row ∧ row.path = path ∧ row.status.isCurrent = true := by
  have hm := List.argmax_mem h
  rw [List.mem_filter, Bool.and_eq_true, decide_eq_true_iff] at hm
  exact ⟨Table.get_eq_some_iff.mpr hm.1, hm.2⟩

theorem currentRow_eq_none (h : db.currentRow path = none) (hr : db.files.get id = some row)
    (hp : row.path = path) : row.status.isCurrent = false := by
  rw [currentRow, List.argmax_eq_none] at h
  by_contra hc
  have hm : (id, row) ∈ db.files.rows.filter fun row =>
      decide (row.2.path = path) && row.2.status.isCurrent := by
    rw [List.mem_filter]
    exact ⟨Table.get_eq_some_iff.mp hr, by simp [hp, hc]⟩
  rw [h] at hm
  exact absurd hm List.not_mem_nil

/-- The tables after the insertion of a sample. -/
def withSample (db : Database) (sample : Sample) (status : FileStatus) (generation : ℤ) : Database :=
  { db with
    files := db.files.put (nextRowId db.files)
      ⟨sample.path, sample.parent, sample.name, sample.identity, status, generation⟩ }

theorem insertSample_eq_ok {wasKnown : Bool}
    (h : insertSample limits generation item wasKnown db retained = .ok (db', retained')) :
    ∃ st : FileStatus, st.isCurrent = true ∧ retained < limits.files ∧
      retained' = retained + 1 ∧ db' = db.withSample item.sample st generation := by
  rw [insertSample] at h
  by_cases hl : limits.files ≤ retained
  · rw [if_pos hl] at h
    exact nomatch h
  rw [if_neg hl] at h
  split at h
  · exact nomatch h
  obtain ⟨rfl, rfl⟩ := Prod.mk.inj (Except.ok.inj h)
  refine ⟨_, ?_, Nat.lt_of_not_le hl, rfl, rfl⟩
  cases wasKnown with
  | true => rfl
  | false => rfl

/-- The current row of the path is seen again, or it is retired, if there is one, and a row is
    inserted. -/
theorem scanSample_cases (h : scanSample limits generation item db retained = .ok (db', retained')) :
    (∃ id row, db.currentRow item.sample.path = some (id, row) ∧
      row.identity = item.sample.identity ∧ retained' = retained ∧
      db' = { db with
        files := db.files.updateWhere (fun k _ => decide (k = id)) fun row =>
          { row with lastSeenGeneration := generation } }) ∨
    (∃ ret st, ((∃ id row, db.currentRow item.sample.path = some (id, row) ∧
        row.identity ≠ item.sample.identity ∧ ret = db.setStatus id .missing) ∨
        (db.currentRow item.sample.path = none ∧ ret = db)) ∧
      FileStatus.isCurrent st = true ∧ retained < limits.files ∧ retained' = retained + 1 ∧
      db' = ret.withSample item.sample st generation) := by
  unfold scanSample at h
  split_ifs at h
  cases hc : db.currentRow item.sample.path with
  | none =>
    simp only [hc] at h
    obtain ⟨st, hs, hl, hr, hdb⟩ := insertSample_eq_ok h
    exact .inr ⟨db, st, .inr ⟨rfl, rfl⟩, hs, hl, hr, hdb⟩
  | some found =>
    obtain ⟨id, row⟩ := found
    simp only [hc] at h
    split_ifs at h with hid
    · obtain ⟨rfl, rfl⟩ := Prod.mk.inj (Except.ok.inj h)
      exact .inl ⟨id, row, rfl, hid, rfl, rfl⟩
    · obtain ⟨st, hs, hl, hr, hdb⟩ := insertSample_eq_ok h
      exact .inr ⟨_, st, .inl ⟨id, row, rfl, hid, rfl⟩, hs, hl, hr, hdb⟩

theorem createTagBody_eq_ok {name : String} {color : Option String} {storage : Option Failure}
    (h : createTagBody limits name color storage db = .ok (id, db')) :
    db.countTags < limits.tags ∧ id = nextRowId db.tags ∧
      db' = { db with tags := db.tags.put id ⟨name, color⟩ } := by
  unfold createTagBody at h
  by_cases hl : limits.tags ≤ db.countTags
  · rw [if_pos hl] at h
    exact nomatch h
  rw [if_neg hl] at h
  split at h
  · exact nomatch h
  split_ifs at h
  obtain ⟨rfl, rfl⟩ := Prod.mk.inj (Except.ok.inj h)
  exact ⟨Nat.lt_of_not_le hl, rfl, rfl⟩

end Database

/-! ## The machine -/

/-- One call, with everything from outside that it meets. -/
inductive Operation where
  | scanComplete (now : ℤ) (items : List Database.ScanItem) (fails : Bool)
  | scanError (message : String) (fails : Bool)
  | createTag (name : String) (color : Option String) (storage : Option Failure) (fails : Bool)
  | updateTag (id : ℤ) (name : String) (color : Option String) (fails : Bool)
  | deleteTag (id : ℤ) (fails : Bool)
  | mutateTags (fileIds tagIds : List ℤ) (add : Bool) (storage : ℤ → ℤ → Option Failure)
      (fails : Bool)
  | relink (oldId newId : ℤ) (fails : Bool)
  | confirm (id : ℤ) (fails : Bool)

/-- The tables after a call. -/
def Database.apply (limits : Limits) (db : Database) : Operation → Database
  | .scanComplete now items fails => (scanComplete limits now items fails db).2
  | .scanError message fails => (scanError message fails db).2
  | .createTag name color storage fails => (createTag limits name color storage fails db).2
  | .updateTag id name color fails => (updateTag id name color fails db).2
  | .deleteTag id fails => (deleteTag id fails db).2
  | .mutateTags fileIds tagIds add storage fails =>
    (mutateTags limits fileIds tagIds add storage fails db).2
  | .relink oldId newId fails => (relink oldId newId fails db).2
  | .confirm id fails => (confirm id fails db).2

/-- The database that `initialize` creates (`tagging/db.rs`, lines 176-203). -/
def Database.new : Database := ⟨⟨false, 0, none, none⟩, .empty, .empty, .empty⟩

/-- Calls are made one after the other, under the lock of the connection. -/
def taggingMachine (limits : Limits) : Machine Database Operation where
  init := .new
  step db op := some (db.apply limits op)

end DufsRam.Tagging
