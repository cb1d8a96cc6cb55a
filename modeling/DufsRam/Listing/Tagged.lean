import DufsRam.Listing.Order
import DufsRam.Tagging.Containment
import DufsRam.Tagging.Scan

/-!
# Tags in a listing

Model of `listing/tagged.rs` with the two queries of `tagging/db/read.rs` that it asks. A listing
takes a sample of each file of its own and looks for a row of the index with the same identity.

The scan computes the nanoseconds of a time with wrapping arithmetic, the listing with checked
arithmetic. They agree as far as the nanoseconds fit in 64 bits, which they do up to the year 2262.
A file with a later time is in the index, but the listing has no sample of it.

Results:
* `listed_eq_some_iff`: when the listing has the sample of the scan.
* `listed_sample_found_iff`: when it finds the row of a file that has not changed.
* `filterTaggedPaths_exact_iff`: when the filter keeps what it should.
-/

namespace DufsRam.Tagging

open scoped IntOrder

/-! ## Samples -/

/-- What `fstat` says of a regular file. -/
structure FileStat where
  dev : UInt64
  ino : UInt64
  size : Int64
  mtime : Int64
  mtimeNsec : Int64
  ctime : Int64
  ctimeNsec : Int64
  size_nonneg : 0 ≤ size

/-- A time in nanoseconds, in the arithmetic of a release build (`tagging/scan.rs`, lines
    165-166). -/
def wrappingNanos (seconds nanoseconds : Int64) : ℤ := (seconds * 1000000000 + nanoseconds).toInt

/-- The result of a checked operation or conversion, if it is an `i64`. -/
def checked (value : ℤ) : Option ℤ := if -2 ^ 63 ≤ value ∧ value < 2 ^ 63 then some value else none

/-- A time in nanoseconds (`listing/tagged.rs`, lines 54-61). -/
def checkedNanos (seconds nanoseconds : Int64) : Option ℤ :=
  (checked (seconds.toInt * 1000000000)).bind fun product => checked (product + nanoseconds.toInt)

/-- The identity in the sample of a scan (`tagging/scan.rs`, lines 162-166). -/
def FileStat.scanned (stat : FileStat) : SampleIdentity where
  dev := stat.dev.toInt64.toInt
  ino := stat.ino.toInt64.toInt
  size := stat.size.toInt
  mtimeNs := wrappingNanos stat.mtime stat.mtimeNsec
  ctimeNs := wrappingNanos stat.ctime stat.ctimeNsec

/-- The identity in the sample of a listing (`listing/tagged.rs`, lines 51-61). -/
def FileStat.listed (stat : FileStat) : Option SampleIdentity :=
  (checked stat.size.toUInt64.toNat).bind fun size =>
    (checkedNanos stat.mtime stat.mtimeNsec).bind fun mtimeNs =>
      (checkedNanos stat.ctime stat.ctimeNsec).map fun ctimeNs =>
        ⟨stat.dev.toInt64.toInt, stat.ino.toInt64.toInt, size, mtimeNs, ctimeNs⟩

/-- The sample of a scan (`tagging/scan.rs`, lines 158-167). -/
def scannedSample (dir : List FileName) (last : FileName) (stat : FileStat) : Sample :=
  ⟨textOf (dir ++ [last]), textOf dir, String.ofList last.chars, stat.scanned⟩

/-- `sample` (lines 41-63). `metadata` gives the regular files by their paths below the root. -/
def sample (metadata : List FileName → Option FileStat) (dir : List FileName) (last : FileName) :
    Option Sample :=
  (metadata (dir ++ [last])).bind fun stat => stat.listed.map fun identity =>
    ⟨textOf (dir ++ [last]), textOf dir, String.ofList last.chars, identity⟩

/-- The nanoseconds and the product on the way to them fit in 64 bits. -/
def NanosFit (seconds nanoseconds : Int64) : Prop :=
  (-2 ^ 63 ≤ seconds.toInt * 1000000000 ∧ seconds.toInt * 1000000000 < 2 ^ 63) ∧
    -2 ^ 63 ≤ seconds.toInt * 1000000000 + nanoseconds.toInt ∧
      seconds.toInt * 1000000000 + nanoseconds.toInt < 2 ^ 63

/-- Both times of a file fit. -/
def FileStat.Fits (stat : FileStat) : Prop :=
  NanosFit stat.mtime stat.mtimeNsec ∧ NanosFit stat.ctime stat.ctimeNsec

variable {stat : FileStat} {metadata : List FileName → Option FileStat} {dir : List FileName}
  {last : FileName}

theorem checked_eq_some_iff {v result : ℤ} :
    checked v = some result ↔ (-2 ^ 63 ≤ v ∧ v < 2 ^ 63) ∧ v = result := by
  rw [checked, Option.ite_none_right_eq_some, Option.some_inj]

/-- Wrapping does nothing where nothing overflows. -/
theorem wrappingNanos_of_fit {sec nanos : Int64} (h : NanosFit sec nanos) :
    wrappingNanos sec nanos = sec.toInt * 1000000000 + nanos.toInt := by
  obtain ⟨hp, hs⟩ := h
  have hf : (1000000000 : Int64).toInt = 1000000000 := by decide
  have hm : (sec.toInt * 1000000000).bmod (2 ^ 64) = sec.toInt * 1000000000 :=
    Int.bmod_eq_of_le (by omega) (by omega)
  rw [wrappingNanos, Int64.toInt_add, Int64.toInt_mul, hf, hm]
  exact Int.bmod_eq_of_le (by omega) (by omega)

theorem checkedNanos_eq_some_iff {sec ns : Int64} {nanos : ℤ} : checkedNanos sec ns = some nanos ↔
      NanosFit sec ns ∧ wrappingNanos sec ns = nanos := by
  have hc : checkedNanos sec ns = some nanos ↔ NanosFit sec ns ∧
      sec.toInt * 1000000000 + ns.toInt = nanos := by
    rw [checkedNanos, Option.bind_eq_some_iff]
    simp only [checked_eq_some_iff, NanosFit]
    constructor
    · rintro ⟨_, ⟨hp, rfl⟩, hs, rfl⟩
      exact ⟨⟨hp, hs⟩, rfl⟩
    · rintro ⟨⟨hp, hs⟩, rfl⟩
      exact ⟨_, ⟨hp, rfl⟩, hs, rfl⟩
  rw [hc]
  exact and_congr_right fun hf => by rw [wrappingNanos_of_fit hf]

theorem checked_size (stat : FileStat) :
    checked stat.size.toUInt64.toNat = some stat.size.toInt := by
  have hn : 0 ≤ stat.size.toInt := Int64.le_iff_toInt_le.mp stat.size_nonneg
  have hlt := stat.size.toInt_lt
  have hs : ((stat.size.toUInt64.toNat : ℕ) : ℤ) = stat.size.toInt := by
    rw [Int64.toNat_toUInt64_of_le stat.size_nonneg]
    exact Int.toNat_of_nonneg hn
  rw [checked_eq_some_iff, hs]
  exact ⟨⟨by omega, hlt⟩, rfl⟩

/-- The listing has the identity of the scan, or none. -/
theorem listed_eq_some_iff {identity : SampleIdentity} :
    stat.listed = some identity ↔ stat.Fits ∧ stat.scanned = identity := by
  rw [FileStat.listed, checked_size, Option.bind_some, Option.bind_eq_some_iff]
  simp only [Option.map_eq_some_iff, checkedNanos_eq_some_iff]
  constructor
  · rintro ⟨_, ⟨hm, rfl⟩, _, ⟨hc, rfl⟩, rfl⟩
    exact ⟨⟨hm, hc⟩, rfl⟩
  · rintro ⟨⟨hm, hc⟩, rfl⟩
    exact ⟨_, ⟨hm, rfl⟩, _, ⟨hc, rfl⟩, rfl⟩

theorem sample_eq_some_iff {lst : Sample} :
    sample metadata dir last = some lst ↔ ∃ stat, metadata (dir ++ [last]) = some stat ∧
      stat.Fits ∧ lst = scannedSample dir last stat := by
  rw [sample, Option.bind_eq_some_iff]
  refine exists_congr fun stat => and_congr_right fun _ => ?_
  rw [Option.map_eq_some_iff]
  constructor
  · rintro ⟨fid, hl, rfl⟩
    obtain ⟨hf, rfl⟩ := listed_eq_some_iff.mp hl
    exact ⟨hf, rfl⟩
  · rintro ⟨hf, rfl⟩
    exact ⟨_, listed_eq_some_iff.mpr ⟨hf, rfl⟩, rfl⟩

/-! ## The row of a sample -/

namespace Database

/-- The row that `listed_tags` takes the tags from (`tagging/db/read.rs`, lines 12-15). -/
def listedId (db : Database) (listed : Sample) : Option ℤ :=
  ((db.files.rows.filter fun row => decide (row.2.path = listed.path) && row.2.status.isCurrent &&
    decide (row.2.identity = listed.identity)).argmax Prod.fst).map Prod.fst

variable {db : Database} {id : ℤ} {row : FileRow}

theorem listedId_eq_some (hu : db.Unique) (hl : db.Live id row) {lst : Sample}
    (hp : row.path = lst.path) (hi : row.identity = lst.identity) :
    db.listedId lst = some id := by
  have hm : (id, row) ∈ db.files.rows.filter fun row => decide (row.2.path = lst.path) &&
      row.2.status.isCurrent && decide (row.2.identity = lst.identity) := by
    refine List.mem_filter.mpr ⟨Table.get_eq_some_iff.mp hl.get, ?_⟩
    simp [hp, hi, hl.current]
  unfold listedId
  cases hmx : List.argmax Prod.fst (db.files.rows.filter fun row =>
      decide (row.2.path = lst.path) && row.2.status.isCurrent &&
        decide (row.2.identity = lst.identity)) with
  | none =>
    rw [List.argmax_eq_none.mp hmx] at hm
    exact absurd hm List.not_mem_nil
  | some found =>
    obtain ⟨hr, ht⟩ := List.mem_filter.mp (List.argmax_mem (Option.mem_def.mpr hmx))
    simp only [Bool.and_eq_true, decide_eq_true_iff] at ht
    have hf : db.Live found.1 found.2 := ⟨Table.get_eq_some_iff.mpr hr, ht.1.2⟩
    rw [Option.map_some, hu _ _ _ _ hf hl (ht.1.1.trans hp.symm)]

end Database

/-- The listing finds the row of a file that has not changed since the scan exactly if the times of
    the file fit. -/
theorem listed_sample_found_iff {limits : Limits} {db : Database}
    (hdb : (taggingMachine limits).Reachable Database.DistinctPaths db) {id : ℤ} {row : FileRow}
    (hlive : db.Live id row) (hpath : row.path = (scannedSample dir last stat).path)
    (hidentity : row.identity = (scannedSample dir last stat).identity)
    (hfile : metadata (dir ++ [last]) = some stat) :
    (∃ listed, sample metadata dir last = some listed ∧
      listed.identity = (scannedSample dir last stat).identity ∧ db.listedId listed = some id) ↔
        stat.Fits := by
  constructor
  · rintro ⟨listed, hl, -⟩
    obtain ⟨stat', hf', hf, -⟩ := sample_eq_some_iff.mp hl
    rw [hfile] at hf'
    exact Option.some.inj hf' ▸ hf
  · intro hf
    refine ⟨_, sample_eq_some_iff.mpr ⟨stat, hfile, hf, rfl⟩, rfl, ?_⟩
    exact Database.listedId_eq_some (Database.Sound.of_reachable hdb).unique hlive hpath hidentity

/-- A file whose modification time is `mtime` seconds after the epoch. -/
def dated (mtime : Int64) : FileStat := ⟨1, 2, 3, mtime, 4, 5, 6, by decide⟩

theorem fits_dated : (dated 1700000000).Fits := by
  unfold FileStat.Fits NanosFit
  decide

/-- The index after a scan that found one file `a`. -/
def indexOf (stat : FileStat) : Database :=
  Database.new.apply ⟨5, 5, 5⟩
    (.scanComplete 0 [⟨scannedSample [] folderA stat, false, none⟩] false)

theorem live_indexOf (stat : FileStat) :
    (indexOf stat).Live 1 ⟨"a", "", "a", stat.scanned, .present, 1⟩ :=
  ⟨rfl, rfl⟩

theorem reachable_indexOf (stat : FileStat) :
    (taggingMachine ⟨5, 5, 5⟩).Reachable Database.DistinctPaths (indexOf stat) :=
  .step .init (e := .scanComplete 0 [⟨scannedSample [] folderA stat, false, none⟩] false)
    (List.nodup_singleton _) rfl

theorem listed_sample_found_now :
    (∃ listed, sample (fun _ => some (dated 1700000000)) [] folderA = some listed ∧
      listed.identity = (scannedSample [] folderA (dated 1700000000)).identity ∧
      (indexOf (dated 1700000000)).listedId listed = some 1) ↔ (dated 1700000000).Fits :=
  listed_sample_found_iff (reachable_indexOf _) (live_indexOf _) (by decide) rfl rfl

/-- A file of the year 2286 is in the index, and the listing has no sample of it. -/
theorem listed_sample_lost :
    (taggingMachine ⟨5, 5, 5⟩).Reachable Database.DistinctPaths (indexOf (dated 10000000000)) ∧
      (∃ row, (indexOf (dated 10000000000)).Live 1 row ∧
        row.path = (scannedSample [] folderA (dated 10000000000)).path ∧
        row.identity = (scannedSample [] folderA (dated 10000000000)).identity) ∧
      sample (fun _ => some (dated 10000000000)) [] folderA = none :=
  ⟨reachable_indexOf _, ⟨_, live_indexOf _, by decide, rfl⟩, by decide⟩

/-! ## Filtering a listing -/

/-- `TagFilter` (lines 5-9). -/
structure TagFilter where
  all : List ℤ
  any : List ℤ
  exclude : List ℤ

/-- An item of a listing: its path below the directory that is listed, which is one name unless the
    listing is recursive. -/
structure ListItem where
  parents : List FileName
  last : FileName
  pathType : Listing.PathType

/-- The query of `filter_tagged_paths` (lines 83-97). -/
def TagFilter.query (filter : TagFilter) (dir : List FileName) (recursive : Bool) : FileQuery where
  search := ""
  directory := textOf dir
  scope := if recursive then .recursive else .current
  status := .all
  allTags := filter.all
  anyTags := filter.any
  excludeTags := filter.exclude
  page := 1
  pageSize := 100

/-- `TagMatches` (`tagging/db.rs`, line 66). -/
abbrev TagMatches := Table String (SampleIdentity × Bool)

/-- The condition on the rows that are read (`tagging/db/read.rs`, lines 40-49). -/
def FileQuery.inPhysical (q : FileQuery) (row : FileRow) : Bool :=
  row.status.isCurrent &&
    FileQuery.inScope { q with scope := if q.scope = .current then .current else .recursive } row

namespace Database

/-- The loop of `matching_tag_paths` (`tagging/db/read.rs`, lines 53-79). `capacity` is that of the
    string that holds a path. -/
def collectMatches (db : Database) (capacity : String → ℕ) (q : FileQuery) :
    List (ℤ × FileRow) → TagMatches → ℕ → Except Failure TagMatches
  | [], result, _ => .ok result
  | row :: rows, result, pathBytes =>
    match boundedText 4096 row.2.path with
    | .error failure => .error failure
    | .ok path =>
      let len := result.total fun _ _ => 1
      if len < 100000 ∧ pathBytes + capacity path + (len + 1) * 512 ≤ 32 * 1024 * 1024 then
        collectMatches db capacity q rows
          (result.put path (row.2.identity, db.fileFilter q row.1 row.2))
          (pathBytes + capacity path)
      else .error .refused

/-- `matching_tag_paths` (lines 33-81). -/
def matchingTagPaths (db : Database) (capacity : String → ℕ) (q : FileQuery) :
    Except Failure TagMatches :=
  db.collectMatches capacity q
    ((db.files.rows.filter fun row => q.inPhysical row.2).take 100001) .empty 0

end Database

/-- The test of an item (lines 111-119). -/
def keepsItem (metadata : List FileName → Option FileStat) (matched : TagMatches)
    (includeUntagged : Bool) (dir : List FileName) (item : ListItem) : Bool :=
  decide (item.pathType = .file) &&
    (sample metadata (dir ++ item.parents) item.last).any fun listed =>
      match matched.get listed.path with
      | some (identity, selected) =>
        if identity = listed.identity then selected else includeUntagged
      | none => includeUntagged

/-- The loop over the items (lines 104-123); `running n` is the test before the item `n`. -/
def keptItems (running : ℕ → Bool) (keeps : ListItem → Bool) :
    ℕ → List ListItem → Except Failure (List ListItem)
  | _, [] => .ok []
  | n, item :: items =>
    if running n then
      (keptItems running keeps (n + 1) items).map fun kept =>
        if keeps item then item :: kept else kept
    else .error .refused

/-- `filter_tagged_paths` (lines 66-128). -/
def filterTaggedPaths (db : Database) (capacity : String → ℕ) (running : ℕ → Bool)
    (metadata : List FileName → Option FileStat) (dir : List FileName) (paths : List ListItem)
    (filter : TagFilter) (recursive : Bool) : Except Failure (List ListItem) :=
  match db.matchingTagPaths capacity (filter.query dir recursive) with
  | .error failure => .error failure
  | .ok matched =>
    keptItems running
      (keepsItem metadata matched (filter.all.isEmpty && filter.any.isEmpty) dir) 0 paths

/-- The path of an item below the root. -/
def ListItem.path (item : ListItem) (dir : List FileName) : List FileName :=
  dir ++ item.parents ++ [item.last]

/-- The row is live, has the path of the file and its identity. -/
structure IndexedAs (db : Database) (path : List FileName) (stat : FileStat) (id : ℤ)
    (row : FileRow) : Prop where
  live : db.Live id row
  path : row.path = textOf path
  identity : row.identity = stat.scanned

/-- The file carries every tag of `all`, one of `any` if there are some, and none of `exclude`. -/
def TagFilter.Carried (filter : TagFilter) (db : Database) (id : ℤ) : Prop :=
  (∀ tag ∈ filter.all, db.tagged id tag = true) ∧
    (filter.any ≠ [] → ∃ tag ∈ filter.any, db.tagged id tag = true) ∧
    ∀ tag ∈ filter.exclude, db.tagged id tag = false

/-- The row of the file carries the tags, or it has no row and no tag is asked for. -/
def TagFilter.Admits (filter : TagFilter) (db : Database) (path : List FileName)
    (stat : FileStat) : Prop :=
  (∃ id row, IndexedAs db path stat id row ∧ filter.Carried db id) ∨
    (¬ ∃ id row, IndexedAs db path stat id row) ∧ filter.all = [] ∧ filter.any = []

/-- What the filter should keep. -/
def ListItem.Wanted (item : ListItem) (db : Database) (metadata : List FileName → Option FileStat)
    (dir : List FileName) (filter : TagFilter) : Prop :=
  item.pathType = .file ∧
    ∃ stat, metadata (item.path dir) = some stat ∧ filter.Admits db (item.path dir) stat

section Filter

variable {db : Database} {capacity : String → ℕ} {running : ℕ → Bool} {filter : TagFilter}
  {recursive : Bool} {matched result : TagMatches} {id : ℤ} {row : FileRow} {item : ListItem}

theorem inTags_iff : db.inTags (filter.query dir recursive) id = true ↔ filter.Carried db id := by
  simp only [Database.inTags, TagFilter.query, TagFilter.Carried, Bool.and_eq_true,
    List.all_eq_true, Bool.or_eq_true, List.isEmpty_iff, List.any_eq_true, Bool.not_eq_true',
    List.any_eq_false, Bool.not_eq_true, and_assoc]
  refine and_congr_right fun _ => and_congr or_iff_not_imp_left ?_
  exact ⟨fun h => h.elim (fun hn => by simp [hn]) fun h => h, .inr⟩

/-- What the loop leaves, if the paths are new and distinct: the rows fit in the budget, and each of
    them is found by its path. -/
theorem collectMatches_spec {q : FileQuery} {rows : List (ℤ × FileRow)} {pathBytes : ℕ}
    (hn : (rows.map fun row => row.2.path).Nodup)
    (hnw : ∀ row ∈ rows, result.get row.2.path = none)
    (h : db.collectMatches capacity q rows result pathBytes = .ok matched) :
    (rows = [] ∨ (result.total fun _ _ => 1) + rows.length ≤ 100000) ∧
      ∀ path v, matched.get path = some v ↔ result.get path = some v ∨
        ∃ row ∈ rows, row.2.path = path ∧ v = (row.2.identity, db.fileFilter q row.1 row.2) := by
  induction rows generalizing result pathBytes with
  | nil =>
    obtain ⟨⟩ := h
    exact ⟨.inl rfl, fun path v => by simp⟩
  | cons row rows ih =>
    obtain ⟨hf, hn⟩ := List.nodup_cons.mp hn
    rw [Database.collectMatches] at h
    split at h
    · cases h
    rename_i path hp
    obtain rfl : row.2.path = path := by
      rw [boundedText] at hp
      split_ifs at hp
      exact Except.ok.inj hp
    dsimp only at h
    split_ifs at h with hb
    have ho : ∀ lat ∈ rows, lat.2.path ≠ row.2.path := fun lat hl heq =>
      hf (List.mem_map.mpr ⟨lat, hl, heq⟩)
    have hg := hnw row List.mem_cons_self
    obtain ⟨hln, hm⟩ := ih hn (fun lat hl => by
      rw [Table.get_put, if_neg (ho lat hl)]
      exact hnw lat (List.mem_cons_of_mem _ hl)) h
    have ht := result.total_put row.2.path (row.2.identity, db.fileFilter q row.1 row.2)
      fun _ _ => 1
    rw [hg, Option.elim_none] at ht
    refine ⟨.inr ?_, fun path v => ?_⟩
    · rw [List.length_cons]
      obtain rfl | hln := hln
      · rw [List.length_nil]
        omega
      · omega
    · rw [hm, Table.get_put]
      by_cases hs : path = row.2.path
      · subst hs
        simp [hg, eq_comm]
      · simp [hs, Ne.symm hs]

/-- What `matching_tag_paths` finds. -/
theorem matchingTagPaths_get {q : FileQuery} (hu : db.Unique)
    (h : db.matchingTagPaths capacity q = .ok matched) (path : String) (v : SampleIdentity × Bool) :
    matched.get path = some v ↔ ∃ id row, db.Live id row ∧ q.inPhysical row = true ∧
      row.path = path ∧ v = (row.identity, db.fileFilter q id row) := by
  have hl : ∀ row ∈ db.files.rows.filter fun row => q.inPhysical row.2,
      db.Live row.1 row.2 := fun row hr => by
    obtain ⟨hmm, hp⟩ := List.mem_filter.mp hr
    exact ⟨Table.get_eq_some_iff.mpr hmm, (Bool.and_eq_true _ _ ▸ hp).1⟩
  have hn : ((db.files.rows.filter fun row => q.inPhysical row.2).map
      fun row => row.2.path).Nodup := by
    refine List.Nodup.map_on (fun row hr row' hr' heq => ?_)
      (db.files.nodupKeys.of_map Prod.fst |>.filter _)
    have hid := hu _ _ _ _ (hl row hr) (hl row' hr') heq
    have hg := (hl row hr).get
    rw [hid, (hl row' hr').get] at hg
    exact Prod.ext hid (Option.some.inj hg).symm
  obtain ⟨hln, hm⟩ := collectMatches_spec
    (hn.sublist ((List.take_sublist 100001 _).map _)) (fun _ _ => rfl) h
  have ht : (db.files.rows.filter fun row => q.inPhysical row.2).length ≤ 100001 := by
    obtain hnl | hle := hln
    · rw [List.take_eq_nil_iff] at hnl
      simp [hnl.resolve_left (by decide)]
    · rw [List.length_take] at hle
      omega
  rw [hm, List.take_of_length_le ht]
  constructor
  · rintro (he | ⟨row, hr, hpt, rfl⟩)
    · cases he
    · exact ⟨row.1, row.2, hl row hr, (List.mem_filter.mp hr).2, hpt, rfl⟩
  · rintro ⟨id, row, hl, hp, hpt, rfl⟩
    exact .inr ⟨(id, row), List.mem_filter.mpr ⟨Table.get_eq_some_iff.mp hl.get, hp⟩, hpt, rfl⟩

/-- The row of a listed file is among those that are read. -/
theorem inScope_of_path (hi : db.Indexed) (hl : db.Live id row)
    (hp : recursive = false → item.parents = [])
    (hpt : row.path = textOf (item.path dir)) :
    (filter.query dir recursive).inScope row = true := by
  have he := hi id row hl.get
  have ht : row.path.toList = joined (dir ++ (item.parents ++ [item.last])) := by
    rw [hpt, toList_textOf, ListItem.path, List.append_assoc]
  cases recursive with
  | true =>
    exact (inScope_iff (filter.query dir true) dir he).mpr
      ⟨dir, .refl dir, _, List.append_ne_nil_of_right_ne_nil _ (List.cons_ne_nil _ _), ht⟩
  | false =>
    obtain ⟨⟨own, last, ho, hpr, -⟩, -⟩ := he
    rw [hp rfl, List.nil_append] at ht
    obtain ⟨rfl, -⟩ := List.append_inj' (joined_injective (ho.symm.trans ht)) rfl
    exact decide_eq_true (String.toList_inj.mp (hpr.trans (toList_textOf own).symm))

/-- What the matches say of the path of a listed file: nothing if it has no live row, and otherwise
    the identity of the row and whether it carries the tags. -/
theorem matched_get_iff (hi : db.Indexed) (hu : db.Unique)
    (h : db.matchingTagPaths capacity (filter.query dir recursive) = .ok matched)
    (hpr : recursive = false → item.parents = []) (v : SampleIdentity × Bool) :
    matched.get (textOf (item.path dir)) = some v ↔
      ∃ id row, db.Live id row ∧ row.path = textOf (item.path dir) ∧
        v = (row.identity, db.inTags (filter.query dir recursive) id) := by
  rw [matchingTagPaths_get hu h]
  refine exists₂_congr fun id row => and_congr_right fun hl => ?_
  have ha : StatusFilter.all.admits row.status = true := by
    have hc := hl.current
    cases hst : row.status <;> rw [hst] at hc <;> first | rfl | cases hc
  have hs : row.path = textOf (item.path dir) → (filter.query dir recursive).inPhysical row = true ∧
        db.fileFilter (filter.query dir recursive) id row =
          db.inTags (filter.query dir recursive) id := by
    intro hp
    have hs : (filter.query dir recursive).inScope row = true :=
      inScope_of_path hi hl hpr hp
    constructor
    · rw [FileQuery.inPhysical, hl.current, Bool.true_and]
      cases recursive <;> exact hs
    · rw [Database.fileFilter, Database.selects, hs, Bool.and_true]
      exact congrArg (· && true && db.inTags (filter.query dir recursive) id) ha
  constructor
  · rintro ⟨-, hp, rfl⟩
    exact ⟨hp, by rw [(hs hp).2]⟩
  · rintro ⟨hp, rfl⟩
    exact ⟨(hs hp).1, hp, by rw [(hs hp).2]⟩

/-- A sample finds its row by the path, and the row says what it carries. -/
theorem keepsItem_iff (hin : db.Indexed) (hun : db.Unique)
    (h : db.matchingTagPaths capacity (filter.query dir recursive) = .ok matched)
    (hpr : recursive = false → item.parents = []) :
    keepsItem metadata matched (filter.all.isEmpty && filter.any.isEmpty) dir item = true ↔
      item.Wanted db metadata dir filter ∧
        ∀ stat, metadata (item.path dir) = some stat → stat.Fits := by
  have hg := matched_get_iff hin hun h hpr
  have ht : ∀ stat : FileStat, (match matched.get (textOf (item.path dir)) with
      | some (identity, selected) =>
        if identity = stat.scanned then selected else filter.all.isEmpty && filter.any.isEmpty
      | none => filter.all.isEmpty && filter.any.isEmpty) = true ↔
      filter.Admits db (item.path dir) stat := by
    intro stat
    have hu : (¬ ∃ id row, IndexedAs db (item.path dir) stat id row) →
        ((filter.all.isEmpty && filter.any.isEmpty) = true ↔
          filter.Admits db (item.path dir) stat) := by
      intro hn
      rw [Bool.and_eq_true, List.isEmpty_iff, List.isEmpty_iff]
      refine ⟨fun he => .inr ⟨hn, he⟩, ?_⟩
      rintro (⟨id, row, hin, -⟩ | ⟨-, he⟩)
      · exact absurd ⟨id, row, hin⟩ hn
      · exact he
    cases hm : matched.get (textOf (item.path dir)) with
    | none =>
      refine hu ?_
      rintro ⟨id, row, hl, hp, -⟩
      cases hm.symm.trans ((hg _).mpr ⟨id, row, hl, hp, rfl⟩)
    | some v =>
      obtain ⟨id, row, hl, hp, rfl⟩ := (hg v).mp hm
      have hs : ∀ id' row', IndexedAs db (item.path dir) stat id' row' → id' = id ∧ row' = row := by
        intro id' row' hr'
        obtain rfl := hun _ _ _ _ hr'.live hl (hr'.path.trans hp.symm)
        exact ⟨rfl, Option.some.inj (hr'.live.get.symm.trans hl.get)⟩
      dsimp only
      split_ifs with hi
      · rw [inTags_iff]
        refine ⟨fun hc => .inl ⟨id, row, ⟨hl, hp, hi⟩, hc⟩, ?_⟩
        rintro (⟨id', row', hr', hc⟩ | ⟨hn, -⟩)
        · exact (hs id' row' hr').1 ▸ hc
        · exact absurd ⟨id, row, hl, hp, hi⟩ hn
      · refine hu ?_
        rintro ⟨id', row', hr'⟩
        exact hi ((hs id' row' hr').2 ▸ hr'.identity)
  rw [keepsItem, Bool.and_eq_true, decide_eq_true_iff, ListItem.Wanted, and_assoc]
  refine and_congr_right fun _ => ?_
  rw [Option.any_eq_true]
  constructor
  · rintro ⟨lst, hls, hk⟩
    obtain ⟨stat, hf, hft, rfl⟩ := sample_eq_some_iff.mp hls
    exact ⟨⟨stat, hf, (ht stat).mp hk⟩, fun stat' hf' => Option.some.inj (hf.symm.trans hf') ▸ hft⟩
  · rintro ⟨⟨stat, hf, hw⟩, hft⟩
    exact ⟨_, sample_eq_some_iff.mpr ⟨stat, hf, hft stat hf, rfl⟩, (ht stat).mpr hw⟩

theorem keptItems_eq {keeps : ListItem → Bool} {n : ℕ} {ps : List ListItem}
    (hr : ∀ k, running k = true) :
    keptItems running keeps n ps = .ok (ps.filter keeps) := by
  induction ps generalizing n with
  | nil => rfl
  | cons item xs ih =>
    rw [keptItems, if_pos (hr n), ih, List.filter_cons]
    rfl

open Classical in
/-- A listing within the budget is filtered as it should exactly if every file that should be kept
    has times that fit. -/
theorem filterTaggedPaths_exact_iff {paths : List ListItem} (hindexed : db.Indexed)
    (hunique : db.Unique) (hparents : ∀ item ∈ paths, recursive = false → item.parents = [])
    (hbudget : db.matchingTagPaths capacity (filter.query dir recursive) = .ok matched)
    (hrunning : ∀ n, running n = true) :
    filterTaggedPaths db capacity running metadata dir paths filter recursive =
        .ok (paths.filter fun item => decide (item.Wanted db metadata dir filter)) ↔
      ∀ item ∈ paths, item.Wanted db metadata dir filter →
        ∀ stat, metadata (item.path dir) = some stat → stat.Fits := by
  have hk : ∀ item ∈ paths, keepsItem metadata matched _ dir item = true ↔
      item.Wanted db metadata dir filter ∧
        ∀ stat, metadata (item.path dir) = some stat → stat.Fits :=
    fun item hi => keepsItem_iff hindexed hunique hbudget (hparents item hi)
  rw [filterTaggedPaths, hbudget]
  dsimp only
  rw [keptItems_eq hrunning, Except.ok.injEq]
  constructor
  · intro heq item hi hw
    have hm : item ∈ paths.filter fun item => decide (item.Wanted db metadata dir filter) :=
      List.mem_filter.mpr ⟨hi, decide_eq_true hw⟩
    rw [← heq] at hm
    exact ((hk item hi).mp (List.mem_filter.mp hm).2).2
  · intro hf
    refine List.filter_congr fun item hi => ?_
    rw [Bool.eq_iff_iff, hk item hi, decide_eq_true_iff]
    exact ⟨And.left, fun hw => ⟨hw, hf item hi hw⟩⟩

end Filter

/-- The file `a` in a listing of the root. -/
def itemA : ListItem := ⟨[], folderA, .file⟩

/-- The filter that leaves out the files with the tag 7. -/
def withoutSeven : TagFilter := ⟨[], [], [7]⟩

open Classical in
theorem filterTaggedPaths_exact_now :
    filterTaggedPaths (indexOf (dated 1700000000)) String.utf8ByteSize (fun _ => true)
        (fun _ => some (dated 1700000000)) [] [itemA] withoutSeven false =
      .ok ([itemA].filter fun item => decide (item.Wanted (indexOf (dated 1700000000))
        (fun _ => some (dated 1700000000)) [] withoutSeven)) := by
  have he : IsEntry "a" "" "a" := ⟨⟨[], folderA, by decide, rfl, by decide⟩, by decide⟩
  have hn : Database.new.Indexed := nofun
  have hin : (indexOf (dated 1700000000)).Indexed :=
    hn.apply _ fun item hi => List.mem_singleton.mp hi ▸ he
  refine (filterTaggedPaths_exact_iff hin
    (Database.Sound.of_reachable (reachable_indexOf _)).unique (fun item hi _ => ?_) rfl
    fun _ => rfl).mpr fun _ _ _ stat hs => ?_
  · exact List.mem_singleton.mp hi ▸ rfl
  · exact Option.some.inj hs ▸ fits_dated

/-- A file of the year 2286 without a tag is left out. -/
theorem untagged_file_dropped :
    itemA.Wanted Database.new (fun _ => some (dated 10000000000)) [] withoutSeven ∧
      filterTaggedPaths Database.new String.utf8ByteSize (fun _ => true)
        (fun _ => some (dated 10000000000)) [] [itemA] withoutSeven false = .ok [] := by
  refine ⟨⟨rfl, _, rfl, .inr ⟨?_, rfl, rfl⟩⟩, rfl⟩
  rintro ⟨id, row, hr⟩
  exact nomatch hr.live.get

end DufsRam.Tagging
