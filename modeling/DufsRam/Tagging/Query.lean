import Mathlib
import DufsRam.Lib.Keyset
import DufsRam.Lib.Like
import DufsRam.Tagging.Database

/-!
# Queries of the tag database

Model of `list` and `folders` of `tagging/db/read.rs` with the filter they share and the cursors of
`tagging/pagination.rs`. Both answer in pages: `list` by number, `folders` by the last name of the
page before. A text column that is longer than its bound is read as NULL, which is an error.

A cursor is modelled by what it holds; its text is base64 of JSON, of which only the length counts.

Results:
* `Database.mem_list`: what the pages of `list` hold together.
* `Database.FolderWalk.spec`, `Database.exists_folderWalk`: following the cursors ends and gives
  every folder name once, in order.
-/

namespace DufsRam.Tagging

/-! ## The filter -/

/-- `str::replace` of a character. -/
def replaceChar (c : Char) (text s : List Char) : List Char :=
  s.flatMap fun x => if x = c then text else [x]

/-- `escape_like` (`tagging/db.rs`, lines 285-289). -/
def escapeLike (s : List Char) : List Char :=
  replaceChar '_' ['\\', '_'] (replaceChar '%' ['\\', '%'] (replaceChar '\\' ['\\', '\\'] s))

/-- The scopes that the API lets through (`tagging/api.rs`, line 292). -/
inductive QueryScope where
  | current
  | recursive
  | all
deriving DecidableEq

/-- The values of `status` that the API lets through (`tagging/api.rs`, lines 293-296). -/
inductive StatusFilter where
  | present
  | missing
  | suspect
  | all
deriving DecidableEq

/-- `FileQuery` (`tagging/db.rs`, lines 296-306). -/
structure FileQuery where
  search : String
  directory : String
  scope : QueryScope
  status : StatusFilter
  allTags : List ℤ
  anyTags : List ℤ
  excludeTags : List ℤ
  page : ℕ
  pageSize : ℕ

/-- Lines 373-377 of `tagging/db/read.rs`. -/
def StatusFilter.admits : StatusFilter → FileStatus → Bool
  | .present, status => decide (status = .present)
  | .missing, status => decide (status = .missing)
  | .suspect, status => decide (status = .suspect)
  | .all, status => decide (status ≠ .relinked)

/-- Lines 378-382. -/
def FileQuery.inSearch (q : FileQuery) (row : FileRow) : Bool :=
  q.search.toList.isEmpty ||
    Like.like '\\' ('%' :: escapeLike q.search.toList ++ ['%']) row.name.toList

/-- Lines 383-396. -/
def FileQuery.inScope (q : FileQuery) (row : FileRow) : Bool :=
  match q.scope with
  | .current => decide (row.parent = q.directory)
  | .recursive =>
    q.directory.toList.isEmpty || decide (row.parent = q.directory) ||
      Like.like '\\' (escapeLike q.directory.toList ++ ['/', '%']) row.path.toList
  | .all => true

namespace Database

/-- `EXISTS(SELECT 1 FROM file_tags ft WHERE ft.file_id=f.id AND ft.tag_id=?)`. -/
def tagged (db : Database) (file tag : ℤ) : Bool := (db.fileTags.get (file, tag)).isSome

/-- The conditions on the tags (lines 397-418). -/
def inTags (db : Database) (q : FileQuery) (id : ℤ) : Bool :=
  q.allTags.all (db.tagged id) && (q.anyTags.isEmpty || q.anyTags.any (db.tagged id)) &&
    (q.excludeTags.isEmpty || !q.excludeTags.any (db.tagged id))

/-- Every condition but the one on the directory. -/
def selects (db : Database) (q : FileQuery) (id : ℤ) (row : FileRow) : Bool :=
  q.status.admits row.status && q.inSearch row && db.inTags q id

/-- `file_filter` (lines 371-420). -/
def fileFilter (db : Database) (q : FileQuery) (id : ℤ) (row : FileRow) : Bool :=
  db.selects q id row && q.inScope row

end Database

/-! ## Pages of files -/

/-- A text column with its bound. -/
def boundedText (limit : ℕ) (text : String) : Except Failure String :=
  if text.utf8ByteSize ≤ limit then .ok text else .error .store

/-- `PAGE_SIZE` (`tagging/pagination.rs`, line 6). -/
def pageSize : ℕ := 50

/-- `FileRow` of an answer. -/
structure ListedFile where
  id : ℤ
  path : String
  name : String
  size : ℤ
  mtimeNs : ℤ
  status : FileStatus
  tagIds : List ℤ
  tagIdsHasMore : Bool
deriving DecidableEq

/-- `Page`. -/
structure Page where
  files : List ListedFile
  total : ℕ
  page : ℕ
  pageSize : ℕ
deriving DecidableEq

/-- The order of the rows: by path without case, and the newest first (line 122). -/
def pathOrder (row row' : ℤ × FileRow) : Prop :=
  toLex (Like.fold row.2.path.toList, -row.1) ≤ toLex (Like.fold row'.2.path.toList, -row'.1)

instance : DecidableRel pathOrder := fun _ _ => inferInstanceAs (Decidable (_ ≤ _))

namespace Database

/-- The rows that the query selects, in order. -/
def selected (db : Database) (q : FileQuery) : List (ℤ × FileRow) :=
  (db.files.rows.filter fun row => db.fileFilter q row.1 row.2).insertionSort pathOrder

/-- A row of an answer (lines 128-148). -/
def listedFile (db : Database) (row : ℤ × FileRow) : Except Failure ListedFile :=
  match boundedText 4096 row.2.path, boundedText 768 row.2.name with
  | .ok path, .ok name =>
    if row.2.status = .relinked then .error .store
    else
      let tagIds := ((db.fileTags.rows.filter fun tag => decide (tag.1.1 = row.1)).map
        (·.1.2)).insertionSort (· ≤ ·) |>.take 51
      .ok ⟨row.1, path, name, row.2.identity.size, row.2.identity.mtimeNs, row.2.status,
        tagIds.take Tagging.pageSize, decide (Tagging.pageSize < tagIds.length)⟩
  | _, _ => .error .store

/-- The loop over the rows of a page. -/
def listedFiles (db : Database) : List (ℤ × FileRow) → Except Failure (List ListedFile)
  | [] => .ok []
  | row :: rows =>
    match db.listedFile row, listedFiles db rows with
    | .ok file, .ok files => .ok (file :: files)
    | .error failure, _ => .error failure
    | .ok _, .error failure => .error failure

/-- `list` (lines 110-156). -/
def list (db : Database) (q : FileQuery) : Except Failure Page :=
  let rows := ((db.selected q).drop ((q.page - 1) * q.pageSize)).take q.pageSize
  match db.listedFiles rows with
  | .ok files => .ok ⟨files, (db.selected q).length, q.page, q.pageSize⟩
  | .error failure => .error failure

end Database

/-! ## Cursors -/

/-- `Cursor` (`tagging/pagination.rs`, lines 13-19). The scope is the list of texts that are hashed
    into it. -/
structure Cursor where
  scope : List String
  reverse : Bool
  name : String
  id : ℤ
deriving DecidableEq

/-- How many bytes has a character in a JSON string? -/
def jsonSize (c : Char) : ℕ :=
  if c ∈ ['"', '\\', '\n', '\r', '\t', '\x08', '\x0c'] then 2
  else if c.val < 32 then 6
  else c.utf8Size

/-- The length of the text of a cursor: base64 without padding of its JSON. -/
def Cursor.encodedLength (c : Cursor) : ℕ :=
  let json := 115 + (if c.reverse then 4 else 5) + (c.name.toList.map jsonSize).sum +
    (toString c.id).utf8ByteSize
  (4 * json + 2) / 3

/-- `Cursor::at` (lines 47-56) with `encode` (lines 40-46). -/
def Cursor.at (scope : List String) (name : String) (id : ℤ) (reverse : Bool) :
    Except Failure Cursor :=
  let c : Cursor := ⟨scope, reverse, name, id⟩
  if 4096 < c.encodedLength then .error .refused else .ok c

/-- The checks of `Cursor::decode` (lines 21-39). -/
def Cursor.accepted (scope : List String) (c : Cursor) : Bool :=
  decide (c.encodedLength ≤ 4096) && decide (c.scope = scope) && decide (0 ≤ c.id) &&
    decide (c.name.utf8ByteSize ≤ 768)

/-! ## Pages of folders -/

/-- `FolderPage`. -/
structure FolderPage where
  folders : List String
  previousCursor : Option Cursor
  nextCursor : Option Cursor
deriving DecidableEq

/-- `instr` of a character: its first place counted from 1, or 0. -/
def instr (s : List Char) (c : Char) : ℕ := if c ∈ s then s.idxOf c + 1 else 0

/-- The name between the first `n` characters and the next slash, if there is one (line 191). -/
def nextName (n : ℕ) (path : List Char) : Option (List Char) :=
  let rest := path.drop n
  if 0 < instr rest '/' then some (rest.take (instr rest '/' - 1)) else none

/-- What the paths of a folder start with (lines 185-189). -/
def folderLead (parent : String) : List Char :=
  if parent.toList.isEmpty then [] else parent.toList ++ ['/']

namespace Database

/-- The name that a row adds to `folder_names` (line 191). -/
def folderName (parent : String) (row : FileRow) : Option String :=
  if row.status.isCurrent &&
      Like.like '\\' (escapeLike (folderLead parent) ++ ['%']) row.path.toList then
    (nextName (folderLead parent).length row.path.toList).map String.ofList
  else none

/-- `folder_names`. -/
def folderNames (db : Database) (parent : String) : Table String Unit where
  rows := (db.files.rows.filterMap fun row => folderName parent row.2).dedup.map (·, ())
  nodupKeys := by
    rw [List.map_map]
    exact (List.map_id _).symm ▸ List.nodup_dedup _

/-- The rows of the query (lines 197-210). -/
def folderRows (names : Table String Unit) : Option Cursor → List String
  | none => (Keyset.page 51 none names).map Prod.fst
  | some c =>
    if c.reverse then
      (((names.rows.map Prod.fst).filter fun name => decide (name < c.name)).insertionSort
        (· ≥ ·)).take 51
    else (Keyset.page 51 (some c.name) names).map Prod.fst

/-- The cursor at a name, if `folder_names` goes on there (lines 226-261). -/
def cursorAt (names : Table String Unit) (scope : List String) (reverse : Bool) :
    Option String → Except Failure (Option Cursor)
  | none => .ok none
  | some name =>
    if names.any fun k _ => if reverse then decide (k < name) else decide (name < k) then
      match Cursor.at scope name 0 reverse with
      | .ok c => .ok (some c)
      | .error failure => .error failure
    else .ok none

/-- The page of the rows that were read (lines 221-266). -/
def folderPage (names : Table String Unit) (scope : List String) (reverse : Bool)
    (rows : List String) : Except Failure FolderPage :=
  let truncated := rows.take Tagging.pageSize
  let folders := if reverse then truncated.reverse else truncated
  match cursorAt names scope true folders.head?, cursorAt names scope false folders.getLast? with
  | .ok previous, .ok next => .ok ⟨folders, previous, next⟩
  | .error failure, _ => .error failure
  | .ok _, .error failure => .error failure

/-- `folders` (lines 178-268). -/
def folders (db : Database) (parent : String) (cursor : Option Cursor) : Except Failure FolderPage :=
  let scope := ["folders", parent]
  if cursor.all (Cursor.accepted scope) = false then .error .refused
  else
    let rows := folderRows (db.folderNames parent) cursor
    if rows.all (fun name => decide (name.utf8ByteSize ≤ 768)) = false then .error .store
    else folderPage (db.folderNames parent) scope (cursor.any Cursor.reverse) rows

end Database

/-! ## What the pages of `list` hold -/

/-- Every element of a list is on one of its numbered pages. -/
theorem mem_iff_mem_page {α : Type*} {l : List α} {size : ℕ} (hs : 0 < size) {x : α} :
    x ∈ l ↔ ∃ page, 1 ≤ page ∧ x ∈ (l.drop ((page - 1) * size)).take size := by
  constructor
  · intro hx
    obtain ⟨i, hi, rfl⟩ := List.mem_iff_getElem.mp hx
    have hm : i % size < size := Nat.mod_lt i hs
    have hd : i / size * size + i % size = i := Nat.div_add_mod' i size
    refine ⟨i / size + 1, Nat.le_add_left 1 _, ?_⟩
    rw [Nat.add_sub_cancel, List.mem_take_iff_getElem]
    refine ⟨i % size, by rw [List.length_drop]; omega, ?_⟩
    rw [List.getElem_drop]
    congr 1
  · rintro ⟨page, -, hx⟩
    exact List.mem_of_mem_drop (List.mem_of_mem_take hx)

namespace Database

variable {db : Database} {q : FileQuery}

/-- The texts of a row are within their bounds, and its status may be shown. -/
structure Listable (row : FileRow) : Prop where
  path : row.path.utf8ByteSize ≤ 4096
  name : row.name.utf8ByteSize ≤ 768
  status : row.status ≠ .relinked

theorem listedFile_eq_ok (db : Database) {row : ℤ × FileRow} (h : Listable row.2) :
    ∃ file, db.listedFile row = .ok file ∧ file.id = row.1 := by
  unfold listedFile
  rw [boundedText, if_pos h.path, boundedText, if_pos h.name]
  simp only [if_neg h.status]
  exact ⟨_, rfl, rfl⟩

theorem listedFiles_eq_ok (db : Database) {rows : List (ℤ × FileRow)}
    (h : ∀ row ∈ rows, Listable row.2) :
    ∃ files, db.listedFiles rows = .ok files ∧ files.map ListedFile.id = rows.map Prod.fst := by
  induction rows with
  | nil => exact ⟨[], rfl, rfl⟩
  | cons row rows ih =>
    obtain ⟨file, hfl, hid⟩ := listedFile_eq_ok db (h row List.mem_cons_self)
    obtain ⟨files, hf, hi⟩ := ih fun row hr => h row (List.mem_cons_of_mem _ hr)
    refine ⟨file :: files, ?_, ?_⟩
    · simp [listedFiles, hfl, hf]
    · rw [List.map_cons, List.map_cons, hid, hi]

theorem mem_selected {id : ℤ} {row : FileRow} :
    (id, row) ∈ db.selected q ↔ db.files.get id = some row ∧ db.fileFilter q id row = true := by
  rw [selected, List.mem_insertionSort, List.mem_filter, Table.get_eq_some_iff]

/-- A query that selects only rows that can be shown is answered, page by page. -/
theorem list_eq_ok (h : ∀ id row, db.files.get id = some row → db.fileFilter q id row = true →
      Listable row) :
    ∃ a, db.list q = .ok a ∧ a.files.map ListedFile.id =
      (((db.selected q).drop ((q.page - 1) * q.pageSize)).take q.pageSize).map Prod.fst := by
  have hr : ∀ row ∈ ((db.selected q).drop ((q.page - 1) * q.pageSize)).take q.pageSize,
      Listable row.2 := by
    rintro ⟨id, row⟩ hrw
    obtain ⟨hg, hf⟩ := mem_selected.mp (List.mem_of_mem_drop (List.mem_of_mem_take hrw))
    exact h id row hg hf
  obtain ⟨files, hfl, hi⟩ := listedFiles_eq_ok db hr
  refine ⟨⟨files, (db.selected q).length, q.page, q.pageSize⟩, ?_, hi⟩
  simp [list, hfl]

/-- The query is answered on every page. -/
def Answered (db : Database) (q : FileQuery) : Prop :=
  ∀ page, ∃ answer, db.list { q with page := page } = .ok answer

/-- The file is on one of the pages of the query. -/
def Lists (db : Database) (q : FileQuery) (id : ℤ) : Prop :=
  ∃ page answer, 1 ≤ page ∧ db.list { q with page := page } = .ok answer ∧
    id ∈ answer.files.map ListedFile.id

theorem mem_list (hs : 0 < q.pageSize)
    (h : ∀ id row, db.files.get id = some row → db.fileFilter q id row = true → Listable row) :
    db.Answered q ∧ ∀ id, db.Lists q id ↔
      ∃ row, db.files.get id = some row ∧ db.fileFilter q id row = true := by
  -- neither the rows nor their order depend on the page that is asked for
  have hp : ∀ page, ∃ a, db.list { q with page := page } = .ok a ∧ a.files.map ListedFile.id =
        (((db.selected q).drop ((page - 1) * q.pageSize)).take q.pageSize).map Prod.fst :=
    fun page => list_eq_ok (q := { q with page := page }) h
  refine ⟨fun page => (hp page).imp fun a ha => ha.1, fun id => ?_⟩
  constructor
  · rintro ⟨page, a, -, ha, hid⟩
    obtain ⟨a', ha', hi⟩ := hp page
    cases ha.symm.trans ha'
    rw [hi] at hid
    obtain ⟨⟨k, row⟩, hr, rfl⟩ := List.mem_map.mp hid
    exact ⟨row, mem_selected.mp (List.mem_of_mem_drop (List.mem_of_mem_take hr))⟩
  · rintro ⟨row, hr⟩
    obtain ⟨page, ho, hm⟩ := (mem_iff_mem_page hs).mp (mem_selected.mpr hr)
    obtain ⟨a, ha, hi⟩ := hp page
    refine ⟨page, a, ho, ha, ?_⟩
    rw [hi]
    exact List.mem_map.mpr ⟨(id, row), hm, rfl⟩

end Database

/-! ## Cursors of short names -/

theorem jsonSize_le (c : Char) : jsonSize c ≤ 6 * c.utf8Size := by
  have hp := c.utf8Size_pos
  unfold jsonSize
  split_ifs <;> omega

theorem sum_jsonSize_le (name : String) :
    (name.toList.map jsonSize).sum ≤ 6 * name.utf8ByteSize := by
  have hl : ∀ s : List Char, (s.map jsonSize).sum ≤ 6 * String.utf8Len s := by
    intro s
    induction s with
    | nil => exact Nat.zero_le _
    | cons c s ih =>
      have := jsonSize_le c
      rw [List.map_cons, List.sum_cons, String.utf8Len_cons]
      omega
  have hb : name.utf8ByteSize = String.utf8Len name.toList := by
    rw [← String.utf8ByteSize_ofList, String.ofList_toList]
  rw [hb]
  exact hl name.toList

/-- A name of a file system has at most 255 bytes, and a cursor at such a name fits. -/
theorem encodedLength_le (scope : List String) (reverse : Bool) {name : String}
    (h : name.utf8ByteSize ≤ 255) : (⟨scope, reverse, name, 0⟩ : Cursor).encodedLength ≤ 4096 := by
  have hs := sum_jsonSize_le name
  have hid : (toString (0 : ℤ)).utf8ByteSize = 1 := by decide
  have hr : (if reverse then 4 else 5) ≤ 5 := by split_ifs <;> omega
  simp only [Cursor.encodedLength, hid]
  omega

/-! ## Walking through the pages of `folders` -/

namespace Database

variable {db : Database} {parent : String} {after : Option String}

/-- The cursor that goes on after a name. -/
def cursorAfter (parent : String) (after : Option String) : Option Cursor :=
  after.map fun name => ⟨["folders", parent], false, name, 0⟩

/-- The folder names of a page and the last one if others follow. -/
def folderStep (names : Table String Unit) (after : Option String) : List String × Option String :=
  let page := (Keyset.page Tagging.pageSize after names).map Prod.fst
  (page, page.getLast?.filter fun last => names.any fun k _ => decide (last < k))

/-- Every folder name is one of a file system. -/
def ShortNames (names : Table String Unit) : Prop :=
  ∀ row ∈ names.rows, row.1.utf8ByteSize ≤ 255

theorem cursorAt_eq_ok (names : Table String Unit) (parent : String) (reverse : Bool)
    {name : Option String} (h : ∀ n ∈ name, n.utf8ByteSize ≤ 255) :
    cursorAt names ["folders", parent] reverse name =
      .ok ((name.filter fun n => names.any fun k _ =>
        if reverse then decide (k < n) else decide (n < k)).map
          fun n => ⟨["folders", parent], reverse, n, 0⟩) := by
  cases name with
  | none => rfl
  | some name =>
    have hf := encodedLength_le ["folders", parent] reverse (h name rfl)
    simp only [cursorAt, Option.filter_some, Cursor.at, if_neg (not_lt.mpr hf)]
    split_ifs <;> rfl

theorem mem_folderStep {names : Table String Unit} {name : String}
    (h : name ∈ (folderStep names after).1) :
    (name, ()) ∈ Keyset.page Tagging.pageSize after names := by
  obtain ⟨row, hr, rfl⟩ := List.mem_map.mp h
  exact hr

theorem folderRows_cursorAfter (names : Table String Unit) (after : Option String) :
    folderRows names (cursorAfter parent after) = (Keyset.page 51 after names).map Prod.fst := by
  cases after with
  | none => rfl
  | some name => simp [cursorAfter, folderRows]

/-- The row that is read beyond the page is dropped again. -/
theorem take_folderRows (names : Table String Unit) (after : Option String) :
    ((Keyset.page 51 after names).map Prod.fst).take Tagging.pageSize =
      (folderStep names after).1 := by
  rw [folderStep, Keyset.page, Keyset.page, ← List.map_take, List.take_take]
  rfl

theorem accepted_cursorAfter (ha : ∀ name ∈ after, name.utf8ByteSize ≤ 255) :
    (cursorAfter parent after).all (Cursor.accepted ["folders", parent]) = true := by
  cases after with
  | none => rfl
  | some name =>
    have hn := ha name rfl
    have hf := encodedLength_le ["folders", parent] false hn
    have hb : name.utf8ByteSize ≤ 768 := by omega
    simp [cursorAfter, Cursor.accepted, hf, hb]

theorem folders_eq_ok (hs : ShortNames (db.folderNames parent))
    (ha : ∀ name ∈ after, name.utf8ByteSize ≤ 255) :
    ∃ prv, db.folders parent (cursorAfter parent after) =
      .ok ⟨(folderStep (db.folderNames parent) after).1, prv,
        cursorAfter parent (folderStep (db.folderNames parent) after).2⟩ := by
  have hf : (cursorAfter parent after).any Cursor.reverse = false := by
    cases after with
    | none => rfl
    | some name => rfl
  have hb : ((Keyset.page 51 after (db.folderNames parent)).map Prod.fst).all
      (fun name => decide (name.utf8ByteSize ≤ 768)) = true := by
    rw [List.all_eq_true]
    intro name hnm
    obtain ⟨row, hr, rfl⟩ := List.mem_map.mp hnm
    have := hs row (Keyset.mem_of_mem_page hr).1
    exact decide_eq_true (by omega)
  have hna : ∀ name ∈ (folderStep (db.folderNames parent) after).1, name.utf8ByteSize ≤ 255 :=
    fun name hnm => hs _ (Keyset.mem_of_mem_page (mem_folderStep hnm)).1
  have hp := cursorAt_eq_ok (db.folderNames parent) parent true
    fun n hn => hna n (List.mem_of_head? hn)
  have hnx := cursorAt_eq_ok (db.folderNames parent) parent false
    fun n hn => hna n (List.mem_of_getLast? hn)
  constructor
  simp only [folders, accepted_cursorAfter ha, folderRows_cursorAfter, hb, hf,
    folderPage, take_folderRows, hp, hnx, Bool.true_eq_false, if_false,
    Bool.false_eq_true]
  rfl

/-- The names on the pages from a cursor on, if the next cursor is followed to the end. -/
inductive FolderWalk (db : Database) (parent : String) : Option Cursor → List String → Prop
  | last {cursor : Option Cursor} {page : FolderPage} (hpage : db.folders parent cursor = .ok page)
      (hnext : page.nextCursor = none) : FolderWalk db parent cursor page.folders
  | next {cursor : Option Cursor} {page : FolderPage} {c : Cursor} {names : List String}
      (hpage : db.folders parent cursor = .ok page) (hnext : page.nextCursor = some c)
      (hrest : FolderWalk db parent (some c) names) :
      FolderWalk db parent cursor (page.folders ++ names)

/-- Names in ascending order that are exactly the folder names after a given one. -/
structure FoldersFrom (names : Table String Unit) (after : Option String) (listed : List String) :
    Prop where
  ascending : listed.Pairwise (· < ·)
  exact : ∀ name, name ∈ listed ↔ (name, ()) ∈ names.rows ∧ Keyset.beyond after name = true

variable {names : Table String Unit} {listed : List String}

theorem folderStep_pairwise (names : Table String Unit) (after : Option String) :
    (folderStep names after).1.Pairwise (· < ·) :=
  List.pairwise_map.mpr (Keyset.page_pairwise _ _ _)

theorem mem_folderStep_iff {name : String} :
    name ∈ (folderStep names after).1 ↔ (name, ()) ∈ Keyset.page Tagging.pageSize after names :=
  ⟨mem_folderStep, fun h => List.mem_map.mpr ⟨(name, ()), h, rfl⟩⟩

/-- The last name of a page that others follow. -/
theorem folderStep_eq_some {last : String} (h : (folderStep names after).2 = some last) :
    (folderStep names after).1.getLast? = some last := (Option.filter_eq_some_iff.mp h).1

theorem le_of_folderStep {last name : String} (h : (folderStep names after).2 = some last)
    (hn : name ∈ (folderStep names after).1) : name ≤ last := by
  have hl := folderStep_eq_some h
  rw [folderStep, List.getLast?_map] at hl
  obtain ⟨row, hr, rfl⟩ := Option.map_eq_some_iff.mp hl
  exact Keyset.le_last_of_mem_page hr (mem_folderStep hn)

theorem ShortNames.of_folderStep {last : String} (hs : ShortNames names)
    (h : (folderStep names after).2 = some last) :
    ∀ name ∈ some last, name.utf8ByteSize ≤ 255 := by
  rintro name ⟨⟩
  have hm := mem_folderStep (List.mem_of_getLast? (folderStep_eq_some h))
  exact hs _ (Keyset.mem_of_mem_page hm).1

/-- The last page. -/
theorem FoldersFrom.last (h : (folderStep names after).2 = none) :
    FoldersFrom names after (folderStep names after).1 := by
  refine ⟨folderStep_pairwise names after, fun name => ?_⟩
  rw [mem_folderStep_iff]
  refine ⟨Keyset.mem_of_mem_page, fun ⟨hm, hb⟩ => ?_⟩
  cases hl : (folderStep names after).1.getLast? with
  | none =>
    have hn : Keyset.page Tagging.pageSize after names = [] :=
      List.map_eq_nil_iff.mp (List.getLast?_eq_none_iff.mp hl)
    have := Keyset.not_beyond_of_page_eq_nil (by decide) hn hm
    rw [hb] at this
    cases this
  | some last =>
    -- no name follows the last one of the page, so `name` is not beyond it
    have hno : (names.any fun k _ => decide (last < k)) = false := by
      by_contra ha
      have hs : (folderStep names after).2 = some last :=
        Option.filter_eq_some_iff.mpr ⟨hl, Bool.eq_true_of_not_eq_false ha⟩
      rw [h] at hs
      cases hs
    have hle : name ≤ last := by
      have := Table.any_eq_false_iff.mp hno name () (Table.get_eq_some_iff.mpr hm)
      exact not_lt.mp (of_decide_eq_false this)
    exact Keyset.mem_page_of_le hm hb (mem_folderStep (List.mem_of_getLast? hl)) hle

/-- A page before the others. -/
theorem FoldersFrom.cons {last : String} (h : (folderStep names after).2 = some last)
    (hr : FoldersFrom names (some last) listed) :
    FoldersFrom names after ((folderStep names after).1 ++ listed) := by
  have hm := mem_folderStep (List.mem_of_getLast? (folderStep_eq_some h))
  have hb : ∀ name, Keyset.beyond (some last) name = true → Keyset.beyond after name = true := by
    intro name hn
    cases after with
    | none => rfl
    | some a =>
      have hl : a < last := Keyset.beyond_some.mp (Keyset.mem_of_mem_page hm).2
      exact Keyset.beyond_some.mpr (hl.trans (Keyset.beyond_some.mp hn))
  refine ⟨?_, fun name => ?_⟩
  · rw [List.pairwise_append]
    refine ⟨folderStep_pairwise names after, hr.ascending, fun name hn name' hn' => ?_⟩
    exact (le_of_folderStep h hn).trans_lt (Keyset.beyond_some.mp ((hr.exact name').mp hn').2)
  · rw [List.mem_append, mem_folderStep_iff, hr.exact]
    constructor
    · rintro (hp | ⟨hrw, hn⟩)
      · exact Keyset.mem_of_mem_page hp
      · exact ⟨hrw, hb name hn⟩
    · rintro ⟨hrw, hn⟩
      obtain hle | hlt := le_or_gt name last
      · exact .inl (Keyset.mem_page_of_le hrw hn hm hle)
      · exact .inr ⟨hrw, Keyset.beyond_some.mpr hlt⟩

/-- Whoever follows the cursors to the end gets every folder name once, in order. -/
theorem FolderWalk.spec (hs : ShortNames (db.folderNames parent)) {cur : Option Cursor}
    (h : FolderWalk db parent cur listed) :
    ∀ after, (∀ name ∈ after, name.utf8ByteSize ≤ 255) → cur = cursorAfter parent after →
      FoldersFrom (db.folderNames parent) after listed := by
  induction h with
  | @last cur page hp hn =>
    rintro after ha rfl
    obtain ⟨prv, hf⟩ := folders_eq_ok hs ha
    cases hp.symm.trans hf
    exact .last (Option.map_eq_none_iff.mp hn)
  | @next cur page c listed hp hn hr ih =>
    rintro after ha rfl
    obtain ⟨prv, hf⟩ := folders_eq_ok hs ha
    cases hp.symm.trans hf
    obtain ⟨last, hl, rfl⟩ := Option.map_eq_some_iff.mp hn
    exact .cons hl (ih (some last) (hs.of_folderStep hl) rfl)

/-- A cursor at a name beyond the last one leaves fewer names. -/
theorem length_beyond_lt {last : String} (hm : (last, ()) ∈ names.rows)
    (hb : Keyset.beyond after last = true) :
    (names.rows.filter fun row => Keyset.beyond (some last) row.1).length <
      (names.rows.filter fun row => Keyset.beyond after row.1).length := by
  have hf : (names.rows.filter fun row => Keyset.beyond (some last) row.1) =
      (names.rows.filter fun row => Keyset.beyond after row.1).filter
        fun row => Keyset.beyond (some last) row.1 := by
    rw [List.filter_filter]
    apply List.filter_congr
    intro row _
    cases after with
    | none => simp
    | some a =>
      have hl : a < last := Keyset.beyond_some.mp hb
      rw [Bool.eq_iff_iff, Bool.and_eq_true, Keyset.beyond_some, Keyset.beyond_some]
      exact ⟨fun h => ⟨h, hl.trans h⟩, And.left⟩
  rw [hf, List.length_filter_lt_length_iff_exists]
  exact ⟨(last, ()), List.mem_filter.mpr ⟨hm, hb⟩, by simp⟩

/-- Following the cursors comes to an end: every page leaves fewer names beyond it. -/
theorem exists_folderWalk (hsh : ShortNames (db.folderNames parent)) :
    ∃ listed, FolderWalk db parent none listed := by
  have hw : ∀ n after, (∀ name ∈ after, name.utf8ByteSize ≤ 255) →
      ((db.folderNames parent).rows.filter fun row => Keyset.beyond after row.1).length = n →
      ∃ listed, FolderWalk db parent (cursorAfter parent after) listed := by
    intro n
    induction n using Nat.strong_induction_on with
    | _ n ih =>
      rintro after ha rfl
      obtain ⟨prv, hf⟩ := folders_eq_ok hsh ha
      cases hs : (folderStep (db.folderNames parent) after).2 with
      | none => exact ⟨_, .last hf (by rw [hs]; rfl)⟩
      | some last =>
        have hm := Keyset.mem_of_mem_page
          (mem_folderStep (List.mem_of_getLast? (folderStep_eq_some hs)))
        obtain ⟨listed, hr⟩ := ih _ (length_beyond_lt hm.1 hm.2) (some last)
          (hsh.of_folderStep hs) rfl
        exact ⟨_, .next hf (by rw [hs]; rfl) hr⟩
  exact hw _ none (fun _ h => (nomatch h)) rfl

end Database

end DufsRam.Tagging
