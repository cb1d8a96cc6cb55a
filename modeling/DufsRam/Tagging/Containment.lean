import DufsRam.Tagging.Query
import DufsRam.Tagging.Relations

/-!
# Which files lie under a directory

The index holds paths as texts, and both queries of a directory find what lies under it by a `LIKE`
pattern. Here a path is a list of file names, and the patterns are compared with it.

`LIKE` does not look at the case of ASCII letters, so a directory `Photos` also gets the files of
`photos`. This is the only way in which the two queries are not exact.

Results:
* `Database.Indexed.of_reachable`: every row of the index comes from such a list.
* `inScope_iff`, `folderName_eq_some_iff`: what the patterns select.
* `queries_exact_iff`: when the two queries are exact.
* `queries_inexact`: an index and a directory for which neither is.
-/

namespace DufsRam.Tagging

/-! ## Paths -/

/-- A name in a directory of a file system. -/
@[ext]
structure FileName where
  chars : List Char
  nonempty : chars ≠ []
  noSlash : '/' ∉ chars
  short : (String.ofList chars).utf8ByteSize ≤ 255

/-- The text of a path. -/
def joined (dir : List FileName) : List Char := ['/'].intercalate (dir.map FileName.chars)

/-- What the text of a path beneath a directory starts with. -/
def leadOf (dir : List FileName) : List Char := if dir = [] then [] else joined dir ++ ['/']

@[simp] theorem joined_singleton (name : FileName) : joined [name] = name.chars :=
  List.intercalate_singleton

variable {rest dir dir' : List FileName} {row : FileRow}

theorem joined_cons {name : FileName} (h : rest ≠ []) :
    joined (name :: rest) = name.chars ++ '/' :: joined rest := by
  have hr : rest.map FileName.chars ≠ [] := fun hn => h (List.map_eq_nil_iff.mp hn)
  rw [joined, List.map_cons, List.intercalate_cons_of_ne_nil hr, List.append_assoc]
  rfl

theorem joined_append (dir : List FileName) (h : rest ≠ []) :
    joined (dir ++ rest) = leadOf dir ++ joined rest := by
  induction dir with
  | nil => rfl
  | cons name dir ih =>
    rw [List.cons_append, joined_cons (List.append_ne_nil_of_right_ne_nil dir h), ih, leadOf, leadOf,
      if_neg (List.cons_ne_nil name dir)]
    by_cases hd : dir = []
    · subst hd
      simp
    · simp [hd, joined_cons hd]

theorem joined_eq_nil : joined dir = [] ↔ dir = [] := by
  refine ⟨fun h => ?_, fun h => h ▸ rfl⟩
  cases dir with
  | nil => rfl
  | cons name dir =>
    by_cases hd : dir = []
    · subst hd
      exact absurd (joined_singleton name ▸ h) name.nonempty
    · rw [joined_cons hd] at h
      exact absurd (List.append_eq_nil_iff.mp h).1 name.nonempty

theorem splitOn_joined (h : dir ≠ []) : (joined dir).splitOn '/' = dir.map FileName.chars := by
  apply List.splitOn_intercalate
  · intro chars hc
    obtain ⟨name, -, rfl⟩ := List.mem_map.mp hc
    exact name.noSlash
  · exact fun hn => h (List.map_eq_nil_iff.mp hn)

theorem chars_injective : Function.Injective FileName.chars := fun _ _ h => FileName.ext h

theorem joined_injective : Function.Injective joined := by
  intro dir dir' h
  by_cases hd : dir = []
  · subst hd
    exact (joined_eq_nil.mp h.symm).symm
  have hd' : dir' ≠ [] := fun hn => hd (joined_eq_nil.mp (h.trans (joined_eq_nil.mpr hn)))
  have hs := congrArg (List.splitOn '/') h
  rw [splitOn_joined hd, splitOn_joined hd'] at hs
  exact List.map_injective_iff.mpr chars_injective hs

/-- The directories have the same text up to the case of ASCII letters. -/
def SameLetters (dir dir' : List FileName) : Prop := Like.fold (joined dir) = Like.fold (joined dir')

theorem SameLetters.refl (dir : List FileName) : SameLetters dir dir := rfl

theorem SameLetters.fold_leadOf (h : SameLetters dir dir') :
    Like.fold (leadOf dir) = Like.fold (leadOf dir') := by
  have hn : dir = [] ↔ dir' = [] := by
    rw [← joined_eq_nil, ← joined_eq_nil, ← Like.fold_eq_nil, ← Like.fold_eq_nil (s := joined dir'), h]
  unfold leadOf
  by_cases hd : dir = []
  · rw [if_pos hd, if_pos (hn.mp hd)]
  · rw [if_neg hd, if_neg (hn.not.mp hd), Like.fold_append, Like.fold_append, h]

theorem SameLetters.length_leadOf (h : SameLetters dir dir') :
    (leadOf dir).length = (leadOf dir').length := by
  rw [← Like.length_fold, h.fold_leadOf, Like.length_fold]

/-- No other character becomes a slash. -/
theorem eq_slash_of_toLower {c : Char} (h : c.toLower = '/') : c = '/' := by
  unfold Char.toLower at h
  split_ifs at h with hu
  · have hv : (c.val + ('a'.val - 'A'.val)).toNat = 47 := congrArg (fun c => c.val.toNat) h
    have hle : 65 ≤ c.val.toNat := UInt32.le_iff_toNat_le.mp hu.1
    have hge : c.val.toNat ≤ 90 := UInt32.le_iff_toNat_le.mp hu.2
    have hs : ('a'.val - 'A'.val).toNat = 32 := rfl
    rw [UInt32.toNat_add, hs] at hv
    omega
  · exact h

/-- A text that starts with a directory up to case is cut between two names. -/
theorem exists_cut {path : List FileName} (hp : path ≠ []) {t₁ t₂ : List Char}
    (ht : joined path = t₁ ++ t₂) (hf : Like.fold t₁ = Like.fold (leadOf dir)) :
    ∃ dir' rest, path = dir' ++ rest ∧ rest ≠ [] ∧ SameLetters dir' dir := by
  by_cases hd : dir = []
  · subst hd
    exact ⟨[], path, rfl, hp, .refl []⟩
  rw [leadOf, if_neg hd, Like.fold_append] at hf
  obtain ⟨u, v, rfl, hu, hv⟩ := List.map_eq_append_iff.mp hf
  obtain ⟨c, rfl, hc⟩ : ∃ c, v = [c] ∧ c.toLower = '/' := by
    obtain ⟨c, w, rfl, hc, hw⟩ := List.map_eq_cons_iff.mp hv
    exact ⟨c, by rw [List.map_eq_nil_iff.mp hw], hc⟩
  obtain rfl := eq_slash_of_toLower hc
  have hs := congrArg (List.splitOn '/') ht
  rw [splitOn_joined hp, List.append_assoc, List.singleton_append,
    List.splitOn_append_cons_self] at hs
  obtain ⟨dir', rest, rfl, hd', hr⟩ := List.map_eq_append_iff.mp hs
  refine ⟨dir', rest, rfl, ?_, ?_⟩
  · rintro rfl
    exact List.splitOn_ne_nil '/' t₂ hr.symm
  · rw [SameLetters, joined, hd', List.intercalate_splitOn]
    exact hu

/-! ## The index -/

/-- The texts that a scan gives for a file (`tagging/scan.rs`, lines 130-167). The kernel opens no
    path of more than 4095 bytes. -/
structure IsEntry (path parent name : String) : Prop where
  texts : ∃ dir last, path.toList = joined (dir ++ [last]) ∧ parent.toList = joined dir ∧
    name.toList = last.chars
  short : path.utf8ByteSize ≤ 4096

namespace Database

/-- Every row has the texts of a file. -/
def Indexed (db : Database) : Prop :=
  ∀ id row, db.files.get id = some row → IsEntry row.path row.parent row.name

variable {db db' : Database}

theorem Indexed.of_updateWhere (h : db.Indexed) (p : ℤ → FileRow → Bool) (f : FileRow → FileRow)
    (hf : ∀ row, (f row).path = row.path ∧ (f row).parent = row.parent ∧ (f row).name = row.name) :
    Indexed { db with files := db.files.updateWhere p f } := by
  intro id row hr
  rw [Table.get_updateWhere, Option.map_eq_some_iff] at hr
  obtain ⟨old, hold, rfl⟩ := hr
  split_ifs
  · obtain ⟨hp, hpr, hn⟩ := hf old
    rw [hp, hpr, hn]
    exact h id old hold
  · exact h id old hold

theorem Indexed.of_files (h : db.Indexed) (hf : db'.files = db.files) : db'.Indexed := by
  intro id row hr
  rw [hf] at hr
  exact h id row hr

theorem Indexed.setStatus (h : db.Indexed) (id : ℤ) (st : FileStatus) :
    (db.setStatus id st).Indexed :=
  h.of_updateWhere _ _ fun _ => ⟨rfl, rfl, rfl⟩

theorem Indexed.withSample (h : db.Indexed) {smp : Sample}
    (hs : IsEntry smp.path smp.parent smp.name) (st : FileStatus)
    (gen : ℤ) : (db.withSample smp st gen).Indexed := by
  intro id row hr
  obtain ⟨-, rfl⟩ | ⟨-, hr⟩ := Table.get_put_cases hr
  · exact hs
  · exact h id row hr

/-- Every sample of the scan has the texts of a file. -/
def FromScan (_ : Database) : Operation → Prop
  | .scanComplete _ items _ =>
    ∀ item ∈ items, IsEntry item.sample.path item.sample.parent item.sample.name
  | _ => True

theorem Indexed.scanLoop {lim : Limits} {gen : ℤ} {xs : List ScanItem} {ret : ℕ} (h : db.Indexed)
    (hi : ∀ item ∈ xs, IsEntry item.sample.path item.sample.parent item.sample.name)
    (hl : scanLoop lim gen xs db ret = .ok db') : db'.Indexed := by
  induction xs generalizing db ret with
  | nil =>
    obtain rfl := Except.ok.inj hl
    exact h
  | cons item xs ih =>
    rw [Database.scanLoop] at hl
    split at hl
    · cases hl
    rename_i db₁ ret₁ hs
    refine ih ?_ (fun item hit => hi item (List.mem_cons_of_mem _ hit)) hl
    obtain ⟨id, row, -, -, -, rfl⟩ | ⟨retired, st, hr, -, -, -, rfl⟩ :=
      scanSample_cases hs
    · exact h.of_updateWhere _ _ fun _ => ⟨rfl, rfl, rfl⟩
    refine Indexed.withSample ?_ (hi item List.mem_cons_self) st gen
    obtain ⟨id, row, -, -, rfl⟩ | ⟨-, rfl⟩ := hr
    · exact h.setStatus id .missing
    · exact h

theorem Indexed.apply (h : db.Indexed) (lim : Limits) {op : Operation}
    (hs : FromScan db op) : (db.apply lim op).Indexed := by
  cases op with
  | scanComplete now xs fl =>
    refine transaction_keeps h fun _ db' hb => ?_
    simp only [scanBody] at hb
    split at hb
    · cases hb
    rename_i db₁ hl
    obtain ⟨-, rfl⟩ := Prod.mk.inj (Except.ok.inj hb)
    exact ((h.scanLoop hs hl).of_updateWhere (fun _ row => row.status.isCurrent &&
        decide (row.lastSeenGeneration ≠ db.root.scanGeneration + 1))
      (fun row => { row with status := .missing }) fun _ => ⟨rfl, rfl, rfl⟩).of_files rfl
  | scanError | deleteTag => exact statement_keeps h (h.of_files rfl)
  | createTag name color storage fl =>
    refine transaction_keeps h fun _ db' hb => ?_
    obtain ⟨-, -, rfl⟩ := createTagBody_eq_ok hb
    exact h.of_files rfl
  | updateTag id name color fl =>
    show (updateTag id name color fl db).2.Indexed
    unfold updateTag
    split_ifs
    · exact h
    · exact statement_keeps h (h.of_files rfl)
  | mutateTags fileIds tagIds add storage fl =>
    refine transaction_keeps h fun _ db' hb => ?_
    exact mutateTagsBody_rule (fun _ _ => ⟨fun _ _ _ hdb _ _ _ _ _ => hdb, fun _ _ _ hdb => hdb⟩)
      h hb
  | relink o n fl =>
    obtain ⟨-, -, hr⟩ | ⟨-, heq⟩ := relink_cases o n fl db
    · exact ((h.setStatus o .relinked).setStatus n .present).of_files hr.files
    · show (relink o n fl db).2.Indexed
      rw [heq]
      exact h
  | confirm id fl =>
    exact statement_keeps h (h.of_updateWhere _ _ fun _ => ⟨rfl, rfl, rfl⟩)

theorem Indexed.of_reachable {lim : Limits} (h : (taggingMachine lim).Reachable FromScan db) :
    db.Indexed := by
  refine h.invariant (fun _ _ hr => by cases hr) fun db op db' _ ih hok hs => ?_
  cases hs
  exact ih.apply lim hok

end Database

/-! ## What the patterns select -/

/-- The path lies strictly under the directory. -/
def Beneath (dir : List FileName) (row : FileRow) : Prop :=
  ∃ rest, rest ≠ [] ∧ row.path.toList = joined (dir ++ rest)

/-- The row is a live file in the folder `name` of the directory, or deeper. -/
structure InFolder (dir : List FileName) (name : FileName) (row : FileRow) : Prop where
  current : row.status.isCurrent = true
  path : ∃ rest, rest ≠ [] ∧ row.path.toList = joined (dir ++ name :: rest)

/-- The text of a directory. -/
def textOf (dir : List FileName) : String := String.ofList (joined dir)

@[simp] theorem toList_textOf (dir : List FileName) : (textOf dir).toList = joined dir :=
  String.toList_ofList

theorem escapeLike_eq_quote (s : List Char) : escapeLike s = Like.quote '\\' s := by
  induction s with
  | nil => rfl
  | cons c s ih =>
    have hs : escapeLike (c :: s) = escapeLike [c] ++ escapeLike s := by
      simp [escapeLike, replaceChar]
    have hq : Like.quote '\\' (c :: s) = Like.quote '\\' [c] ++ Like.quote '\\' s := by
      simp [Like.quote]
    rw [hs, hq, ih]
    congr 1
    by_cases he : c = '\\'
    · subst he
      decide
    by_cases ha : c = '%'
    · subst ha
      decide
    by_cases ho : c = '_'
    · subst ho
      decide
    simp [escapeLike, replaceChar, Like.quote, he, ha, ho]

theorem folderLead_textOf (dir : List FileName) : folderLead (textOf dir) = leadOf dir := by
  rw [folderLead, leadOf, toList_textOf]
  by_cases hd : dir = []
  · rw [if_pos hd, hd]
    rfl
  have hne : (joined dir).isEmpty = false :=
    List.isEmpty_eq_false_iff.mpr fun h => hd (joined_eq_nil.mp h)
  rw [hne, if_neg hd]
  rfl

/-- The pattern of a directory matches what lies under a directory of the same letters. -/
theorem like_leadOf_iff {path : List FileName} (hp : path ≠ []) :
    Like.like '\\' (escapeLike (leadOf dir) ++ ['%']) (joined path) = true ↔
      ∃ dir' rest, path = dir' ++ rest ∧ rest ≠ [] ∧ SameLetters dir' dir := by
  rw [escapeLike_eq_quote, Like.like_quote_any (by decide)]
  constructor
  · rintro ⟨t₁, t₂, ht, hf⟩
    exact exists_cut hp ht hf
  · rintro ⟨dir', rest, rfl, hr, hs⟩
    exact ⟨leadOf dir', joined rest, joined_append dir' hr, hs.fold_leadOf⟩

/-- `directory` and `scope` of a recursive query. -/
def FileQuery.under (q : FileQuery) (dir : List FileName) : FileQuery :=
  { q with
    scope := .recursive
    directory := textOf dir }

theorem inScope_iff (q : FileQuery) (dir : List FileName)
    (hrw : IsEntry row.path row.parent row.name) :
    (q.under dir).inScope row = true ↔ ∃ dir', SameLetters dir' dir ∧ Beneath dir' row := by
  obtain ⟨⟨own, last, hp, hpr, -⟩, -⟩ := hrw
  have hne : own ++ [last] ≠ [] := List.append_ne_nil_of_right_ne_nil own (List.cons_ne_nil last [])
  have hb : (∃ dir', SameLetters dir' dir ∧ Beneath dir' row) ↔
      ∃ dir' rest, own ++ [last] = dir' ++ rest ∧ rest ≠ [] ∧ SameLetters dir' dir := by
    constructor
    · rintro ⟨dir', hs, rest, hr, ht⟩
      exact ⟨dir', rest, joined_injective (hp.symm.trans ht), hr, hs⟩
    · rintro ⟨dir', rest, heq, hr, hs⟩
      exact ⟨dir', hs, rest, hr, by rw [hp, heq]⟩
  have hsc : (q.under dir).inScope row = ((textOf dir).toList.isEmpty ||
      decide (row.parent = textOf dir) ||
        Like.like '\\' (escapeLike (textOf dir).toList ++ ['/', '%']) row.path.toList) := rfl
  rw [hsc, hb, toList_textOf]
  by_cases hd : dir = []
  · subst hd
    exact ⟨fun _ => ⟨[], _, rfl, hne, .refl []⟩, fun _ => rfl⟩
  have hn : (joined dir).isEmpty = false :=
    List.isEmpty_eq_false_iff.mpr fun h => hd (joined_eq_nil.mp h)
  have hpt : escapeLike (joined dir) ++ ['/', '%'] = escapeLike (leadOf dir) ++ ['%'] := by
    rw [leadOf, if_neg hd, escapeLike_eq_quote, escapeLike_eq_quote, Like.quote_append,
      List.append_assoc]
    rfl
  rw [hn, Bool.false_or, Bool.or_eq_true, decide_eq_true_iff, hpt, hp, like_leadOf_iff hne]
  refine ⟨fun h => h.elim (fun ho => ?_) id, .inr⟩
  -- a file of the directory itself also lies under it
  have : own = dir := joined_injective (by rw [← hpr, ho, toList_textOf])
  exact ⟨own, [last], rfl, List.cons_ne_nil last [], this ▸ .refl own⟩

theorem nextName_append {lead : List Char} (hr : rest ≠ []) {name : List Char} :
    nextName lead.length (lead ++ joined rest) = some name ↔
      ∃ x lat, rest = x :: lat ∧ lat ≠ [] ∧ name = x.chars := by
  obtain ⟨x, lat, rfl⟩ := List.exists_cons_of_ne_nil hr
  rw [nextName, List.drop_left]
  by_cases hl : lat = []
  · subst hl
    have hn : instr (joined [x]) '/' = 0 := by
      rw [joined_singleton, instr, if_neg x.noSlash]
    simp only [hn, lt_irrefl, if_false]
    refine ⟨fun h => (nomatch h), ?_⟩
    rintro ⟨x', lat', heq, hne, -⟩
    exact absurd (List.cons.inj heq).2.symm hne
  · have hi : instr (joined (x :: lat)) '/' = x.chars.length + 1 := by
      rw [joined_cons hl, instr, if_pos (List.mem_append_right _ List.mem_cons_self),
        List.idxOf_append_of_notMem x.noSlash, List.idxOf_cons_self]
    simp only [hi, Nat.succ_pos, if_true, Nat.add_sub_cancel]
    rw [joined_cons hl, List.take_left, Option.some_inj]
    constructor
    · rintro rfl
      exact ⟨x, lat, rfl, hl, rfl⟩
    · rintro ⟨x', lat', heq, -, rfl⟩
      rw [(List.cons.inj heq).1]

namespace Database

theorem folderName_eq_some_iff (dir : List FileName) {row : FileRow}
    (hrw : IsEntry row.path row.parent row.name) {name : String} :
    folderName (textOf dir) row = some name ↔
      ∃ dir' x, SameLetters dir' dir ∧ InFolder dir' x row ∧
        name = String.ofList x.chars := by
  obtain ⟨⟨own, last, hp, -, -⟩, -⟩ := hrw
  have hne : own ++ [last] ≠ [] := List.append_ne_nil_of_right_ne_nil own (List.cons_ne_nil last [])
  rw [folderName, folderLead_textOf, Option.ite_none_right_eq_some, Bool.and_eq_true, hp,
    like_leadOf_iff hne, Option.map_eq_some_iff]
  constructor
  · rintro ⟨⟨hcr, dir', rest, heq, hr, hs⟩, chars, hn, rfl⟩
    rw [heq, joined_append dir' hr, ← hs.length_leadOf] at hn
    obtain ⟨x, later, rfl, hl, rfl⟩ := (nextName_append hr).mp hn
    exact ⟨dir', x, hs, ⟨hcr, later, hl, by rw [hp, heq]⟩, rfl⟩
  · rintro ⟨dir', x, hs, ⟨hcr, later, hl, ht⟩, rfl⟩
    have heq : own ++ [last] = dir' ++ x :: later := joined_injective (hp.symm.trans ht)
    have hc : x :: later ≠ [] := List.cons_ne_nil x later
    refine ⟨⟨hcr, dir', x :: later, heq, hc, hs⟩, x.chars, ?_, rfl⟩
    rw [heq, joined_append dir' hc, ← hs.length_leadOf]
    exact (nextName_append hc).mpr ⟨x, later, rfl, hl, rfl⟩

/-- Some live file of the index is in the folder. -/
def HasFolder (db : Database) (dir : List FileName) (name : FileName) : Prop :=
  ∃ id row, db.files.get id = some row ∧ InFolder dir name row

variable {db : Database}

theorem mem_folderNames_iff (hdb : db.Indexed) (dir : List FileName) {name : String} :
    (name, ()) ∈ (db.folderNames (textOf dir)).rows ↔
      ∃ dir' x, SameLetters dir' dir ∧ db.HasFolder dir' x ∧
        name = String.ofList x.chars := by
  have hm : (name, ()) ∈ (db.folderNames (textOf dir)).rows ↔
      ∃ id row, db.files.get id = some row ∧ folderName (textOf dir) row = some name := by
    simp only [folderNames, List.mem_map, List.mem_dedup, List.mem_filterMap, Prod.exists,
      Table.get_eq_some_iff, Prod.mk.injEq, and_true, exists_eq_right]
  rw [hm]
  constructor
  · rintro ⟨id, row, hr, hn⟩
    obtain ⟨dir', x, hs, hf, rfl⟩ :=
      (folderName_eq_some_iff dir (hdb id row hr)).mp hn
    exact ⟨dir', x, hs, ⟨id, row, hr, hf⟩, rfl⟩
  · rintro ⟨dir', x, hs, ⟨id, row, hr, hf⟩, rfl⟩
    exact ⟨id, row, hr, (folderName_eq_some_iff dir (hdb id row hr)).mpr ⟨dir', x, hs, hf, rfl⟩⟩

theorem shortNames_folderNames (hdb : db.Indexed) (dir : List FileName) :
    ShortNames (db.folderNames (textOf dir)) := by
  intro row hr
  obtain ⟨dir', x, -, -, hn⟩ := (mem_folderNames_iff hdb dir).mp hr
  rw [hn]
  exact x.short

end Database

/-! ## Exact answers -/

/-- A path lies under only one directory of the same letters. -/
theorem Beneath.unique (h : Beneath dir row) (h' : Beneath dir' row) (hs : SameLetters dir' dir) :
    dir' = dir := by
  obtain ⟨rest, hr, ht⟩ := h
  obtain ⟨rest', hr', ht'⟩ := h'
  rw [ht, joined_append dir hr, joined_append dir' hr'] at ht'
  have hl := (List.append_inj ht' hs.length_leadOf.symm).1
  unfold leadOf at hl
  split_ifs at hl with hd hd'
  · rw [hd, hd']
  · exact absurd hl.symm (List.append_ne_nil_of_right_ne_nil _ (List.cons_ne_nil _ _))
  · exact absurd hl (List.append_ne_nil_of_right_ne_nil _ (List.cons_ne_nil _ _))
  · exact (joined_injective (List.append_cancel_right hl)).symm

namespace Database

variable {db : Database}

/-- The recursive query of the directory is answered, and its pages hold exactly the selected files
    that lie strictly under the directory. -/
structure FilesExact (db : Database) (q : FileQuery) (dir : List FileName) : Prop where
  answered : db.Answered (q.under dir)
  exact : ∀ id, db.Lists (q.under dir) id ↔
    ∃ row, db.files.get id = some row ∧ db.selects q id row = true ∧ Beneath dir row

/-- Following the pages of `folders` gives, in order and once each, exactly the names of the folders
    in the directory that hold a live file. -/
def FoldersExact (db : Database) (dir : List FileName) : Prop :=
  ∃ listed, FolderWalk db (textOf dir) none listed ∧ listed.Pairwise (· < ·) ∧
    ∀ name, name ∈ listed ↔ ∃ first, db.HasFolder dir first ∧ name = String.ofList first.chars

/-- What the recursive query returns. -/
theorem lists_under_iff (hdb : db.Indexed) {q : FileQuery} (hs : 0 < q.pageSize)
    (dir : List FileName) :
    db.Answered (q.under dir) ∧ ∀ id, db.Lists (q.under dir) id ↔
      ∃ row, db.files.get id = some row ∧ db.selects q id row = true ∧
        ∃ dir', SameLetters dir' dir ∧ Beneath dir' row := by
  have hl : ∀ id row, db.files.get id = some row →
      db.fileFilter (q.under dir) id row = true → Listable row := by
    intro id row hr hf
    obtain ⟨⟨own, last, -, -, hn⟩, hp⟩ := hdb id row hr
    have hla : row.name.utf8ByteSize ≤ 255 := by
      rw [← String.ofList_toList (s := row.name), hn]
      exact last.short
    refine ⟨hp, by omega, ?_⟩
    intro hrl
    simp only [fileFilter, selects, Bool.and_eq_true, hrl] at hf
    have ha := hf.1.1.1
    cases hst : (q.under dir).status <;> rw [hst] at ha <;> cases ha
  obtain ⟨han, hls⟩ := mem_list (q := q.under dir) hs hl
  refine ⟨han, fun id => (hls id).trans (exists_congr fun row => ?_)⟩
  refine and_congr_right fun hr => ?_
  rw [fileFilter, Bool.and_eq_true, inScope_iff q dir (hdb id row hr)]
  rfl

theorem filesExact_iff (hdb : db.Indexed) {q : FileQuery} (hsz : 0 < q.pageSize)
    (dir : List FileName) :
    db.FilesExact q dir ↔ ∀ id row dir', db.files.get id = some row → db.selects q id row = true →
      SameLetters dir' dir → Beneath dir' row → dir' = dir := by
  obtain ⟨ha, hl⟩ := lists_under_iff hdb hsz dir
  constructor
  · intro h id row dir' hr hs hsm hb
    obtain ⟨row', hr', -, he⟩ :=
      (h.exact id).mp ((hl id).mpr ⟨row, hr, hs, dir', hsm, hb⟩)
    obtain ⟨⟩ := (hr.symm.trans hr')
    exact he.unique hb hsm
  · intro h
    refine ⟨ha, fun id => (hl id).trans ?_⟩
    constructor
    · rintro ⟨row, hr, hs, dir', hsm, hb⟩
      obtain rfl := h id row dir' hr hs hsm hb
      exact ⟨row, hr, hs, hb⟩
    · rintro ⟨row, hr, hs, hb⟩
      exact ⟨row, hr, hs, dir, .refl dir, hb⟩

theorem foldersExact_iff (hdb : db.Indexed) (dir : List FileName) : db.FoldersExact dir ↔
      ∀ dir' name, SameLetters dir' dir → db.HasFolder dir' name → db.HasFolder dir name := by
  have hsh := shortNames_folderNames hdb dir
  have hsp : ∀ lst, FolderWalk db (textOf dir) none lst → lst.Pairwise (· < ·) ∧
      ∀ name, name ∈ lst ↔ ∃ dir' x, SameLetters dir' dir ∧ db.HasFolder dir' x ∧
        name = String.ofList x.chars := by
    intro lst hw
    have hfr := hw.spec hsh none (fun _ h => (nomatch h)) rfl
    refine ⟨hfr.ascending, fun name => (hfr.exact name).trans ?_⟩
    rw [mem_folderNames_iff hdb dir, Keyset.beyond_none, and_iff_left rfl]
  constructor
  · rintro ⟨lst, hw, -, he⟩ dir' name hs hf
    have hm := ((hsp lst hw).2 _).mpr ⟨dir', name, hs, hf, rfl⟩
    obtain ⟨x, hfi, heq⟩ := (he _).mp hm
    rwa [chars_injective (String.ofList_inj.mp heq)]
  · intro h
    obtain ⟨lst, hw⟩ := exists_folderWalk hsh
    obtain ⟨ha, hm⟩ := hsp lst hw
    refine ⟨lst, hw, ha, fun name => (hm name).trans ?_⟩
    constructor
    · rintro ⟨dir', x, hs, hf, hn⟩
      exact ⟨x, h dir' x hs hf, hn⟩
    · rintro ⟨x, hf, hn⟩
      exact ⟨dir, x, .refl dir, hf, hn⟩

end Database

/-- **Exact queries.** For every index of files and every directory, the recursive query is exact iff
    no selected file lies under another directory of the same letters, and `folders` is exact iff
    every folder of such a directory is also one of the directory itself. -/
theorem queries_exact_iff (db : Database) (hdb : db.Indexed) (dir : List FileName) :
    (∀ q : FileQuery, 0 < q.pageSize → (db.FilesExact q dir ↔
      ∀ id row dir', db.files.get id = some row → db.selects q id row = true →
        SameLetters dir' dir → Beneath dir' row → dir' = dir)) ∧
    (db.FoldersExact dir ↔
      ∀ dir' name, SameLetters dir' dir → db.HasFolder dir' name → db.HasFolder dir name) :=
  ⟨fun _ hs => db.filesExact_iff hdb hs dir, db.foldersExact_iff hdb dir⟩

/-! ### A file in `photos/a` and the directory `Photos` -/

/-- The scan of a root with the file `photos/a/b`. -/
def photoScan : Operation :=
  .scanComplete 0 [⟨⟨"photos/a/b", "photos/a", "b", ⟨1, 1, 0, 0, 0⟩⟩, false, none⟩] false

/-- The index after the scan. -/
def photoIndex : Database := Database.new.apply ⟨10, 10, 10⟩ photoScan

def photos : FileName := ⟨['p', 'h', 'o', 't', 'o', 's'], by decide, by decide, by decide⟩

def upperPhotos : FileName := ⟨['P', 'h', 'o', 't', 'o', 's'], by decide, by decide, by decide⟩

def folderA : FileName := ⟨['a'], by decide, by decide, by decide⟩

def fileB : FileName := ⟨['b'], by decide, by decide, by decide⟩

/-- All present files. -/
def presentFiles : FileQuery := ⟨"", "", .all, .present, [], [], [], 1, 50⟩

theorem photoIndex_indexed : photoIndex.Indexed := by
  have hn : Database.new.Indexed := fun _ _ hr => (nomatch hr)
  refine hn.apply _ fun item hi => ?_
  rw [List.mem_singleton.mp hi]
  exact ⟨⟨[photos, folderA], fileB, by decide, by decide, by decide⟩, by decide⟩

theorem photoIndex_get : photoIndex.files.get 1 =
    some ⟨"photos/a/b", "photos/a", "b", ⟨1, 1, 0, 0, 0⟩, .present, 1⟩ := by decide

theorem photos_sameLetters : SameLetters [photos] [upperPhotos] := rfl

/-- The only row of the index is the file. -/
theorem photoIndex_path {id : ℤ} (h : photoIndex.files.get id = some row) :
    row.path.toList = joined [photos, folderA, fileB] := by
  have hr : photoIndex.files.rows.map (fun row => row.2.path) = ["photos/a/b"] := by decide
  have hm := List.mem_map_of_mem (f := fun row : ℤ × FileRow => row.2.path)
    (Table.get_eq_some_iff.mp h)
  rw [hr, List.mem_singleton] at hm
  rw [show row.path = "photos/a/b" from hm]
  decide

/-- `Photos` holds nothing, but the recursive query returns the file and `folders` the folder. -/
theorem queries_inexact : photoIndex.Indexed ∧ ¬ photoIndex.FilesExact presentFiles [upperPhotos] ∧
      ¬ photoIndex.FoldersExact [upperPhotos] := by
  refine ⟨photoIndex_indexed, ?_, ?_⟩
  · rw [Database.filesExact_iff photoIndex_indexed (by decide)]
    intro h
    have heq := h 1 _ [photos] photoIndex_get (by decide) photos_sameLetters
      ⟨[folderA, fileB], List.cons_ne_nil _ _, by decide⟩
    exact absurd (congrArg joined heq) (by decide)
  · rw [Database.foldersExact_iff photoIndex_indexed]
    intro h
    obtain ⟨id, row, hr, hf⟩ := h [photos] folderA photos_sameLetters
      ⟨1, _, photoIndex_get, by decide, [fileB], List.cons_ne_nil _ _, by decide⟩
    obtain ⟨rest, hrs, ht⟩ := hf.path
    rw [photoIndex_path hr] at ht
    exact absurd (congrArg FileName.chars (List.cons.inj (joined_injective ht)).1) (by decide)

theorem queries_exact_iff_photos :
    photoIndex.FilesExact presentFiles [photos] ∧ photoIndex.FoldersExact [photos] := by
  obtain ⟨hfi, hfl⟩ := queries_exact_iff photoIndex photoIndex_indexed [photos]
  have hu : ∀ id row dir', photoIndex.files.get id = some row → SameLetters dir' [photos] →
      Beneath dir' row → dir' = [photos] := by
    intro id row dir' hr hs hb
    refine Beneath.unique ⟨[folderA, fileB], List.cons_ne_nil _ _, ?_⟩ hb hs
    exact photoIndex_path hr
  refine ⟨(hfi presentFiles (by decide)).mpr fun id row dir' hr _ => hu id row dir' hr, hfl.mpr ?_⟩
  rintro dir' name hs ⟨id, row, hr, hf⟩
  obtain ⟨rest, hrs, ht⟩ := hf.path
  obtain rfl := hu id row dir' hr hs ⟨name :: rest, List.cons_ne_nil _ _, ht⟩
  exact ⟨id, row, hr, hf⟩

end DufsRam.Tagging
