import DufsRam.Lib.Quota
import DufsRam.Tagging.Database

/-!
# The tags of files, and the limits

The loops of `mutate_tags` keep two counters, and `relink` computes a sum before it copies tags.
Both agree with the tables, so that no file has more than sixteen tags and no table outgrows its
limit.

Results:
* `Database.mutateTagsBody_rule`: a property that every insertion and every deletion keeps.
* `Database.mutateTags_exact`: what a batch does to the table, all of it or nothing.
* `Database.get_copyTags`: what the copy of tags does to the table.
* `Database.Within.of_reachable`: the limits hold in every run.
* `tag_limits_and_relink`: the limits, and what a relink does to the tags of files.
-/

namespace DufsRam.Tagging

namespace Database

variable {db db' : Database} {limits : Limits} {storage : ℤ → ℤ → Option Failure}
  {fileIds tagIds : List ℤ} {add : Bool}

/-- The tables with one more tag on a file. -/
def addTag (db : Database) (file tag : ℤ) : Database :=
  { db with fileTags := db.fileTags.put (file, tag) () }

/-- The tables with one tag less on a file. -/
def removeTag (db : Database) (file tag : ℤ) : Database :=
  { db with fileTags := db.fileTags.erase (file, tag) }

theorem tagCount_addTag {file tag : ℤ} (h : db.fileTags.get (file, tag) = none) :
    (db.addTag file tag).tagCount file = db.tagCount file + 1 := by
  show (db.fileTags.put (file, tag) ()).countWhere (fun key _ => decide (key.1 = file)) = _
  rw [Table.countWhere_put db.fileTags (file, tag) () fun key => decide (key.1 = file),
    if_pos ⟨decide_eq_true rfl, h⟩]
  rfl

theorem countFileTags_addTag {file tag : ℤ} (h : db.fileTags.get (file, tag) = none) :
    (db.addTag file tag).countFileTags = db.countFileTags + 1 := by
  show (db.fileTags.put (file, tag) ()).countWhere (fun _ _ => true) = _
  rw [Table.countWhere_put db.fileTags (file, tag) () fun _ => true, if_pos ⟨rfl, h⟩]
  rfl

/-! ## `mutate_tags` -/

/-- The counters are right while tags are added. -/
structure Counted (add : Bool) (file : ℤ) (st : MutateState) : Prop where
  retained : add = true → st.retained = st.db.countFileTags
  fileCount : add = true → st.fileCount = st.db.tagCount file

/-- What a property has to survive. -/
structure Survives (limits : Limits) (fileIds tagIds : List ℤ) (P : Database → Prop) : Prop where
  add : ∀ db file tag, P db → file ∈ fileIds → tag ∈ tagIds →
    db.fileTags.get (file, tag) = none → db.tagCount file < maxFileTags →
    db.countFileTags < limits.relations → P (db.addTag file tag)
  remove : ∀ db file tag, P db → P (db.removeTag file tag)

variable {P : Database → Prop}

theorem mutateTag_rule (hP : Survives limits fileIds tagIds P) {file tag : ℤ}
    (hf : file ∈ fileIds) (htg : tag ∈ tagIds) {st st' : MutateState}
    (hc : Counted add file st) (hst : P st.db)
    (h : mutateTag limits storage add file tag st = .ok st') : Counted add file st' ∧ P st'.db := by
  unfold mutateTag at h
  cases add with
  | false =>
    obtain ⟨⟩ := h
    exact ⟨⟨nofun, nofun⟩, hP.remove st.db file tag hst⟩
  | true =>
    simp only [if_true] at h
    split_ifs at h with ht hfl hl
    · obtain ⟨⟩ := h
      exact ⟨hc, hst⟩
    split at h
    · exact nomatch h
    obtain ⟨⟩ := h
    have hn : st.db.fileTags.get (file, tag) = none := by
      simpa using ht
    have hr := hc.retained rfl
    have hcn := hc.fileCount rfl
    refine ⟨⟨fun _ => ?_, fun _ => ?_⟩, hP.add st.db file tag hst hf htg hn ?_ ?_⟩
    · show st.retained + 1 = (st.db.addTag file tag).countFileTags
      rw [countFileTags_addTag hn, hr]
    · show st.fileCount + 1 = (st.db.addTag file tag).tagCount file
      rw [tagCount_addTag hn, hcn]
    · omega
    · omega

theorem mutateFile_rule (hP : Survives limits fileIds tagIds P) {file : ℤ}
    (hf : file ∈ fileIds) {tags : List ℤ} (ht : ∀ tag ∈ tags, tag ∈ tagIds)
    {st st' : MutateState} (hc : Counted add file st) (hst : P st.db)
    (h : mutateFile limits storage add file tags st = .ok st') : Counted add file st' ∧ P st'.db := by
  induction tags generalizing st with
  | nil =>
    obtain ⟨⟩ := h
    exact ⟨hc, hst⟩
  | cons tag tags ih =>
    rw [mutateFile] at h
    split at h
    · exact nomatch h
    rename_i st₁ htg
    obtain ⟨hc₁, hst₁⟩ :=
      mutateTag_rule hP hf (ht tag List.mem_cons_self) hc hst htg
    exact ih (fun tag' ht' => ht tag' (List.mem_cons_of_mem _ ht')) hc₁ hst₁ h

theorem mutateFiles_rule (hP : Survives limits fileIds tagIds P) {files : List ℤ}
    (hf : ∀ file ∈ files, file ∈ fileIds) {ret : ℕ}
    (hr : add = true → ret = db.countFileTags) (hdb : P db)
    (h : mutateFiles limits storage add tagIds files db ret = .ok db') : P db' := by
  induction files generalizing db ret with
  | nil =>
    obtain ⟨⟩ := h
    exact hdb
  | cons file files ih =>
    rw [mutateFiles] at h
    split at h
    · exact nomatch h
    rename_i st hfl
    have hc : Counted add file ⟨db, ret, if add then db.tagCount file else 0⟩ := by
      refine ⟨hr, fun ha => ?_⟩
      rw [if_pos ha]
    obtain ⟨hc', hst⟩ := mutateFile_rule hP (hf file List.mem_cons_self) (fun _ ht => ht) hc hdb hfl
    exact ih (fun file' hf' => hf file' (List.mem_cons_of_mem _ hf')) hc'.retained hst h

/-- What the insertions and deletions of `mutate_tags` keep is kept by it. The files are current and
    the tags are there. -/
theorem mutateTagsBody_rule {r : Unit} (hP : (∀ file ∈ fileIds, db.isCurrent file = true) →
      (∀ tag ∈ tagIds, (db.tags.get tag).isSome = true) → Survives limits fileIds tagIds P)
    (hdb : P db) (h : mutateTagsBody limits fileIds tagIds add storage db = .ok (r, db')) :
    P db' := by
  unfold mutateTagsBody at h
  split_ifs at h with hf ht
  rw [Bool.not_eq_false, List.all_eq_true] at hf ht
  split at h
  · exact nomatch h
  · rename_i db₁ hl
    obtain ⟨-, rfl⟩ := Prod.mk.inj (Except.ok.inj h)
    exact mutateFiles_rule (hP hf ht) (fun _ hfl => hfl) (fun _ => rfl) hdb hl

/-! ### What a batch does -/

/-- The pairs of `p` become tags, or are none any more; everything else is as it was. -/
structure Mutated (add : Bool) (p : ℤ × ℤ → Prop) [DecidablePred p] (db db' : Database) : Prop where
  rest : db' = { db with fileTags := db'.fileTags }
  pairs : ∀ k, (db'.fileTags.get k).isSome = if p k then add else (db.fileTags.get k).isSome

theorem mutateTag_mutated {file tag : ℤ} {st st' : MutateState}
    (h : mutateTag limits storage add file tag st = .ok st') :
    Mutated add (· = (file, tag)) st.db st'.db := by
  unfold mutateTag at h
  cases add with
  | false =>
    obtain ⟨⟩ := h
    refine ⟨rfl, fun k => ?_⟩
    rw [Table.get_erase]
    split_ifs <;> rfl
  | true =>
    simp only [if_true] at h
    split_ifs at h with ht
    · obtain ⟨⟩ := h
      refine ⟨rfl, fun k => ?_⟩
      split_ifs with hk
      · rw [hk, ht]
      · rfl
    cases hs : storage file tag with
    | some _ => rw [hs] at h; cases h
    | none =>
      rw [hs] at h
      obtain ⟨⟩ := h
      refine ⟨rfl, fun k => ?_⟩
      rw [Table.get_put]
      split_ifs <;> rfl

theorem Mutated.trans {db₁ : Database} {p q : ℤ × ℤ → Prop} [DecidablePred p] [DecidablePred q]
    (h : Mutated add p db db₁) (h' : Mutated add q db₁ db') :
    Mutated add (fun k => p k ∨ q k) db db' := by
  refine ⟨by rw [h'.rest, h.rest], fun k => ?_⟩
  rw [h'.pairs, h.pairs]
  by_cases hp : p k <;> by_cases hq : q k <;> simp [hp, hq]

theorem Mutated.congr {p q : ℤ × ℤ → Prop} [DecidablePred p] [DecidablePred q]
    (h : Mutated add p db db') (hpq : ∀ k, p k ↔ q k) : Mutated add q db db' :=
  ⟨h.rest, fun k => by rw [h.pairs]; simp only [hpq]⟩

theorem mutateFile_mutated {file : ℤ} {tags : List ℤ} {st st' : MutateState}
    (h : mutateFile limits storage add file tags st = .ok st') :
    Mutated add (fun k => k.1 = file ∧ k.2 ∈ tags) st.db st'.db := by
  induction tags generalizing st with
  | nil =>
    obtain ⟨⟩ := h
    exact ⟨rfl, by simp⟩
  | cons tag tags ih =>
    rw [mutateFile] at h
    cases ht : mutateTag limits storage add file tag st with
    | error _ => rw [ht] at h; cases h
    | ok st₁ =>
      rw [ht] at h
      refine ((mutateTag_mutated ht).trans (ih h)).congr fun k => ?_
      rw [Prod.ext_iff, List.mem_cons, ← and_or_left]

theorem mutateFiles_mutated {files : List ℤ} {ret : ℕ}
    (h : mutateFiles limits storage add tagIds files db ret = .ok db') :
    Mutated add (fun k => k.1 ∈ files ∧ k.2 ∈ tagIds) db db' := by
  induction files generalizing db ret with
  | nil =>
    obtain ⟨⟩ := h
    exact ⟨rfl, by simp⟩
  | cons file files ih =>
    rw [mutateFiles] at h
    cases hf : mutateFile limits storage add file tagIds
        ⟨db, ret, if add then db.tagCount file else 0⟩ with
    | error _ => simp only [hf] at h; cases h
    | ok st =>
      simp only [hf] at h
      refine ((mutateFile_mutated hf).trans (ih h)).congr fun k => ?_
      rw [List.mem_cons, or_and_right]

/-- **A batch of tags.** If it succeeds, every listed file has every listed tag, or none of them,
    however often the lists repeat an id, and nothing else has changed. If it fails, also in the
    middle of its loops, nothing has. -/
theorem mutateTags_exact (limits : Limits) (fileIds tagIds : List ℤ) (add : Bool)
    (storage : ℤ → ℤ → Option Failure) (fails : Bool) (db : Database) :
    let res := mutateTags limits fileIds tagIds add storage fails db
    (res.1 = .ok () ∧ res.2 = { db with fileTags := res.2.fileTags } ∧ ∀ file tag,
      (res.2.fileTags.get (file, tag)).isSome = if file ∈ fileIds ∧ tag ∈ tagIds then add
        else (db.fileTags.get (file, tag)).isSome) ∨
    (∃ failure, res.1 = .error failure) ∧ res.2 = db := by
  obtain ⟨_, hok, hb⟩ | hfail :=
    transaction_cases fails (mutateTagsBody limits fileIds tagIds add storage) db
  swap
  · exact .inr hfail
  unfold mutateTagsBody at hb
  split_ifs at hb
  cases hm : mutateFiles limits storage add tagIds fileIds db db.countFileTags with
  | error _ => rw [hm] at hb; cases hb
  | ok db₁ =>
    rw [hm] at hb
    have hmt := mutateFiles_mutated hm
    rw [(Prod.mk.inj (Except.ok.inj hb)).2] at hmt
    exact .inl ⟨hok, hmt.rest, fun file tag => hmt.pairs (file, tag)⟩

/-! ## `relink` -/

/-- `INSERT OR IGNORE` of one tag for the new file. -/
def copyTag (newId : ℤ) (table : Table (ℤ × ℤ) Unit) (row : (ℤ × ℤ) × Unit) :
    Table (ℤ × ℤ) Unit :=
  if (table.get (newId, row.1.2)).isSome then table else table.put (newId, row.1.2) ()

theorem get_copyTag (n : ℤ) (table : Table (ℤ × ℤ) Unit) (row : (ℤ × ℤ) × Unit) (key : ℤ × ℤ) :
    (copyTag n table row).get key =
      if key = (n, row.1.2) then some () else table.get key := by
  unfold copyTag
  split_ifs with ht hk hk
  · subst hk
    exact (Option.some_get ht).symm
  · rfl
  · rw [Table.get_put, if_pos hk]
  · rw [Table.get_put, if_neg hk]

theorem countWhere_copyTag (n : ℤ) (table : Table (ℤ × ℤ) Unit) (row : (ℤ × ℤ) × Unit)
    (p : ℤ × ℤ → Bool) :
    (copyTag n table row).countWhere (fun key _ => p key) =
      table.countWhere (fun key _ => p key) +
        if p (n, row.1.2) = true ∧ table.get (n, row.1.2) = none then 1 else 0 := by
  unfold copyTag
  split_ifs with ht hn hn
  · rw [hn.2] at ht
    exact nomatch ht
  · rfl
  · rw [Table.countWhere_put, if_pos hn]
  · rw [Table.countWhere_put, if_neg hn]

theorem get_foldl_copyTag (n : ℤ) (rows : List ((ℤ × ℤ) × Unit)) (table : Table (ℤ × ℤ) Unit)
    (key : ℤ × ℤ) :
    (rows.foldl (copyTag n) table).get key = some () ↔
      (key.1 = n ∧ ∃ row ∈ rows, row.1.2 = key.2) ∨ table.get key = some () := by
  induction rows generalizing table with
  | nil => simp
  | cons row rows ih =>
    rw [List.foldl_cons, ih, get_copyTag]
    constructor
    · rintro (⟨hk, row', hr', ht⟩ | h)
      · exact .inl ⟨hk, row', List.mem_cons_of_mem _ hr', ht⟩
      · split_ifs at h with hk
        · exact .inl ⟨by rw [hk], row, List.mem_cons_self, by rw [hk]⟩
        · exact .inr h
    · rintro (⟨hk, row', hr', ht⟩ | h)
      · obtain rfl | hr' := List.mem_cons.mp hr'
        · have hp : key = (n, row'.1.2) := Prod.ext hk ht.symm
          exact .inr (if_pos hp)
        · exact .inl ⟨hk, row', hr', ht⟩
      · refine .inr ?_
        split_ifs
        · rfl
        · exact h

/-- The rows have distinct tags, so every tag that is new is counted once. -/
theorem countWhere_foldl_copyTag (n : ℤ) (p : ℤ × ℤ → Bool) (rows : List ((ℤ × ℤ) × Unit))
    (table : Table (ℤ × ℤ) Unit) (hn : (rows.map fun row => row.1.2).Nodup) :
    (rows.foldl (copyTag n) table).countWhere (fun key _ => p key) =
      table.countWhere (fun key _ => p key) +
        rows.countP fun row => p (n, row.1.2) && (table.get (n, row.1.2)).isNone := by
  induction rows generalizing table with
  | nil => rfl
  | cons row rows ih =>
    rw [List.map_cons, List.nodup_cons] at hn
    -- The first row does not change what is there of the others.
    have hr : (rows.countP fun row' => p (n, row'.1.2) &&
        ((copyTag n table row).get (n, row'.1.2)).isNone) =
        rows.countP fun row' => p (n, row'.1.2) && (table.get (n, row'.1.2)).isNone := by
      refine List.countP_congr fun row' hr' => ?_
      have hne : (n, row'.1.2) ≠ (n, row.1.2) := fun h =>
        hn.1 (List.mem_map.mpr ⟨row', hr', (Prod.mk.inj h).2⟩)
      rw [get_copyTag, if_neg hne]
    rw [List.foldl_cons, ih _ hn.2, hr, countWhere_copyTag, List.countP_cons]
    have hh : (if (p (n, row.1.2) && (table.get (n, row.1.2)).isNone) = true then 1 else 0)
        = if p (n, row.1.2) = true ∧ table.get (n, row.1.2) = none then 1 else 0 := by
      simp
    omega

theorem copyTags_eq (o n : ℤ) (fileTags : Table (ℤ × ℤ) Unit) : copyTags o n fileTags =
      (fileTags.rows.filter fun row => decide (row.1.1 = o)).foldl (copyTag n) fileTags := rfl

/-- The new file has the tags of both. -/
theorem get_copyTags (o n : ℤ) (fileTags : Table (ℤ × ℤ) Unit) (key : ℤ × ℤ) :
    (copyTags o n fileTags).get key = some () ↔
      (key.1 = n ∧ fileTags.get (o, key.2) = some ()) ∨ fileTags.get key = some () := by
  rw [copyTags_eq, get_foldl_copyTag]
  have hold : (∃ row ∈ fileTags.rows.filter (fun row => decide (row.1.1 = o)),
      row.1.2 = key.2) ↔ fileTags.get (o, key.2) = some () := by
    rw [Table.get_eq_some_iff]
    constructor
    · rintro ⟨⟨⟨file, tag⟩, ⟨⟩⟩, hr, rfl⟩
      rw [List.mem_filter, decide_eq_true_iff] at hr
      obtain ⟨hr, rfl⟩ := hr
      exact hr
    · intro hr
      exact ⟨_, List.mem_filter.mpr ⟨hr, decide_eq_true rfl⟩, rfl⟩
  rw [hold]

theorem countWhere_copyTags (o n : ℤ) (db : Database) (p : ℤ × ℤ → Bool) :
    (copyTags o n db.fileTags).countWhere (fun key _ => p key) =
      db.fileTags.countWhere (fun key _ => p key) +
        db.fileTags.countWhere fun key _ => p (n, key.2) && (decide (key.1 = o) &&
          (db.fileTags.get (n, key.2)).isNone) := by
  have hn : ((db.fileTags.rows.filter fun row => decide (row.1.1 = o)).map
      fun row => row.1.2).Nodup := by
    refine List.Nodup.map_on ?_ ((db.fileTags.nodupKeys.of_map Prod.fst).filter _)
    rintro ⟨⟨file, tag⟩, ⟨⟩⟩ hr ⟨⟨file', tag'⟩, ⟨⟩⟩ hr' ht
    have hf := of_decide_eq_true (List.mem_filter.mp hr).2
    have hf' := of_decide_eq_true (List.mem_filter.mp hr').2
    rw [Prod.mk.injEq, Prod.mk.injEq]
    exact ⟨⟨hf.trans hf'.symm, ht⟩, rfl⟩
  rw [copyTags_eq, countWhere_foldl_copyTag n p _ _ hn, List.countP_filter]
  congr 1
  refine List.countP_congr fun row _ => ?_
  rw [Bool.and_assoc, Bool.and_comm (Option.isNone _)]

/-- The relations after a relink (lines 214-218). -/
def relinkedTags (oldId newId : ℤ) (fileTags : Table (ℤ × ℤ) Unit) : Table (ℤ × ℤ) Unit :=
  (copyTags oldId newId fileTags).deleteWhere fun key _ => decide (key.1 = oldId)

/-- What a relink has found and done. -/
structure Relinked (oldId newId : ℤ) (db db' : Database) : Prop where
  missing : (db.files.get oldId).map FileRow.status = some .missing
  current : db.isCurrent newId = true
  room : 0 < db.additionalTags oldId newId →
    db.tagCount newId + db.additionalTags oldId newId ≤ maxFileTags
  fileTags : db'.fileTags = relinkedTags oldId newId db.fileTags
  files : db'.files = ((db.setStatus oldId .relinked).setStatus newId .present).files
  tags : db'.tags = db.tags
  root : db'.root = db.root

theorem relinkBody_eq_ok {o n : ℤ} {r : Unit}
    (h : relinkBody o n db = .ok (r, db')) : Relinked o n db db' := by
  unfold relinkBody at h
  split_ifs at h with hr hl
  obtain ⟨hm, hc⟩ := not_or.mp hr
  obtain ⟨-, rfl⟩ := Prod.mk.inj (Except.ok.inj h)
  refine ⟨not_not.mp hm, Bool.not_eq_false _ ▸ hc, fun hp => ?_, rfl, rfl, rfl, rfl⟩
  by_contra hmr
  exact hl ⟨hp, Nat.lt_of_not_le hmr⟩

/-- A relink that succeeds comes from its transaction. -/
theorem relink_cases (o n : ℤ) (fl : Bool) (db : Database) :
    ((relink o n fl db).1 = .ok () ∧ o ≠ n ∧
      Relinked o n db (relink o n fl db).2) ∨
    ((∃ fail, (relink o n fl db).1 = .error fail) ∧
      (relink o n fl db).2 = db) := by
  unfold relink
  split_ifs with hs
  · exact .inr ⟨⟨_, rfl⟩, rfl⟩
  · obtain ⟨⟨⟩, hok, hb⟩ | hf := transaction_cases fl (relinkBody o n) db
    · exact .inl ⟨hok, hs, relinkBody_eq_ok hb⟩
    · exact .inr hf

theorem get_relinkedTags {o n : ℤ} (fileTags : Table (ℤ × ℤ) Unit) (key : ℤ × ℤ) :
    (relinkedTags o n fileTags).get key = some () ↔ key.1 ≠ o ∧
      ((key.1 = n ∧ fileTags.get (o, key.2) = some ()) ∨ fileTags.get key = some ()) := by
  rw [relinkedTags, Table.get_deleteWhere, ← get_copyTags, Option.bind_eq_some_iff]
  constructor
  · rintro ⟨⟨⟩, hg, hold⟩
    split_ifs at hold with hk
    exact ⟨of_decide_eq_false (Bool.not_eq_true _ ▸ hk), hg⟩
  · rintro ⟨hk, hg⟩
    exact ⟨(), hg, by rw [if_neg (by simpa using hk)]⟩

/-! ## The limits -/

/-- The tables are within their limits, and so are the tags of every file. -/
structure Within (limits : Limits) (db : Database) : Prop where
  files : db.countFiles ≤ limits.files
  tags : db.countTags ≤ limits.tags
  relations : db.fileTags.Quota Prod.fst limits.relations maxFileTags

/-- A relink moves tags: the new file has room, and the old one gives up at least as many as the new
    one gets. -/
theorem quota_relinkedTags {oldId n : ℤ} (hne : oldId ≠ n)
    (h : db.fileTags.Quota Prod.fst limits.relations maxFileTags)
    (hr : 0 < db.additionalTags oldId n →
      db.tagCount n + db.additionalTags oldId n ≤ maxFileTags) :
    (relinkedTags oldId n db.fileTags).Quota Prod.fst limits.relations maxFileTags := by
  have ha : db.additionalTags oldId n ≤ db.tagCount oldId := by
    refine List.countP_mono_left fun row _ hrw => ?_
    exact (Bool.and_eq_true_iff.mp hrw).1
  constructor
  · have hc := countWhere_copyTags oldId n db fun _ => true
    have hm := countWhere_copyTags oldId n db fun key => decide (key.1 = oldId)
    have hd := (copyTags oldId n db.fileTags).countWhere_deleteWhere (fun _ _ => true)
      fun key _ => decide (key.1 = oldId)
    simp only [Bool.true_and, hne.symm, decide_false, Bool.false_and] at hc hm hd
    have hro := h.rows
    simp only [additionalTags, tagCount] at ha
    rw [relinkedTags]
    omega
  · intro file
    have hd := (copyTags oldId n db.fileTags).countWhere_deleteWhere_le
      (fun key _ => decide (key.1 = file)) fun key _ => decide (key.1 = oldId)
    have hc := countWhere_copyTags oldId n db fun key => decide (key.1 = file)
    have ho := h.owned file
    rw [relinkedTags]
    by_cases hf : n = file
    · subst hf
      simp only [decide_true, Bool.true_and] at hc
      simp only [additionalTags, tagCount] at hr
      by_cases hp : 0 < db.additionalTags oldId n
      · omega
      · omega
    · have hn : (db.fileTags.countWhere fun _ _ => false) = 0 :=
      congrFun List.countP_false db.fileTags.rows
      simp only [hf, decide_false, Bool.false_and] at hc
      omega

/-- Changes of rows do not change how many there are. -/
theorem Within.of_updateWhere (h : db.Within limits) (p : ℤ → FileRow → Bool)
    (f : FileRow → FileRow) : Within limits { db with files := db.files.updateWhere p f } := by
  refine ⟨?_, h.tags, h.relations⟩
  show (db.files.updateWhere p f).countWhere (fun _ _ => true) ≤ limits.files
  rw [Table.updateWhere, Table.countWhere_mapRows db.files _ fun _ => true]
  exact h.files

theorem Within.setStatus (h : db.Within limits) (id : ℤ) (st : FileStatus) :
    (db.setStatus id st).Within limits :=
  h.of_updateWhere _ _

theorem countFiles_setStatus (db : Database) (id : ℤ) (st : FileStatus) :
    (db.setStatus id st).countFiles = db.countFiles :=
  Table.countWhere_mapRows db.files _ fun _ => true

theorem countFiles_withSample (db : Database) (smp : Sample) (st : FileStatus)
    (gen : ℤ) : (db.withSample smp st gen).countFiles = db.countFiles + 1 := by
  show (db.files.put _ _).countWhere (fun _ _ => true) = _
  rw [Table.countWhere_put db.files _ _ fun _ => true, if_pos ⟨rfl, get_nextRowId db.files⟩]
  rfl

theorem scanSample_within {gen : ℤ} {item : ScanItem} {retained ret' : ℕ}
    (h : db.Within limits) (hr : retained = db.countFiles)
    (hs : scanSample limits gen item db retained = .ok (db', ret')) :
    db'.Within limits ∧ ret' = db'.countFiles := by
  obtain ⟨id, row, -, -, rfl, rfl⟩ | ⟨ret, st, hrt, -, hl, rfl, rfl⟩ :=
    scanSample_cases hs
  · refine ⟨h.of_updateWhere _ _, hr.trans ?_⟩
    exact (Table.countWhere_mapRows db.files _ fun _ => true).symm
  have hc : ret.Within limits ∧ ret.countFiles = retained := by
    obtain ⟨id, row, -, -, rfl⟩ | ⟨-, rfl⟩ := hrt
    · exact ⟨h.setStatus id .missing, (countFiles_setStatus db id .missing).trans hr.symm⟩
    · exact ⟨h, hr.symm⟩
  rw [countFiles_withSample, hc.2]
  refine ⟨⟨?_, hc.1.tags, hc.1.relations⟩, rfl⟩
  rw [countFiles_withSample, hc.2]
  exact hl

theorem scanLoop_within {gen : ℤ} {xs : List ScanItem} {ret : ℕ}
    (h : db.Within limits) (hr : ret = db.countFiles)
    (hl : scanLoop limits gen xs db ret = .ok db') : db'.Within limits := by
  induction xs generalizing db ret with
  | nil =>
    obtain ⟨⟩ := hl
    exact h
  | cons item xs ih =>
    rw [scanLoop] at hl
    split at hl
    · exact nomatch hl
    · rename_i db₁ ret₁ hs
      obtain ⟨hwi, hr₁⟩ := scanSample_within h hr hs
      exact ih hwi hr₁ hl

theorem Within.scanBody (h : db.Within limits) {now : ℤ} {xs : List ScanItem} {r : Unit}
    (hb : scanBody limits now xs db = .ok (r, db')) : db'.Within limits := by
  simp only [Database.scanBody] at hb
  split at hb
  · exact nomatch hb
  rename_i db₁ hl
  obtain ⟨-, rfl⟩ := Prod.mk.inj (Except.ok.inj hb)
  have hl := (scanLoop_within h rfl hl).of_updateWhere (fun _ row => row.status.isCurrent &&
      decide (row.lastSeenGeneration ≠ db.root.scanGeneration + 1))
    fun row => { row with status := .missing }
  exact ⟨hl.files, hl.tags, hl.relations⟩

theorem Within.createTagBody (h : db.Within limits) {name : String} {color : Option String}
    {storage : Option Failure} {r : ℤ}
    (hb : createTagBody limits name color storage db = .ok (r, db')) :
    db'.Within limits := by
  obtain ⟨hl, rfl, rfl⟩ := createTagBody_eq_ok hb
  refine ⟨h.files, ?_, h.relations⟩
  show (db.tags.put _ _).countWhere (fun _ _ => true) ≤ limits.tags
  rw [Table.countWhere_put db.tags _ _ fun _ => true, if_pos ⟨rfl, get_nextRowId db.tags⟩]
  exact hl

theorem Within.updateTag (h : db.Within limits) (id : ℤ) (name : String) (color : Option String)
    (fl : Bool) : (updateTag id name color fl db).2.Within limits := by
  unfold Database.updateTag
  split_ifs
  · exact h
  refine statement_keeps h ⟨h.files, ?_, h.relations⟩
  show (db.tags.updateWhere _ _).countWhere (fun _ _ => true) ≤ limits.tags
  rw [Table.updateWhere, Table.countWhere_mapRows db.tags _ fun _ => true]
  exact h.tags

theorem Within.deleteTag (h : db.Within limits) (id : ℤ) (fl : Bool) :
    (deleteTag id fl db).2.Within limits := by
  have hr := h.relations.deleteWhere fun key _ => decide (key.2 = id)
  refine statement_keeps h ⟨h.files, ?_, hr⟩
  exact (db.tags.countWhere_deleteWhere_le (fun _ _ => true) _).trans h.tags

/-- Every insertion of `mutate_tags` has found room. -/
theorem Within.survives : Survives limits fileIds tagIds (Within limits) where
  add _ _ _ h _ _ _ hc hl := ⟨h.files, h.tags, h.relations.put_of_room () hl hc⟩
  remove _ _ _ h := ⟨h.files, h.tags, h.relations.erase _⟩

theorem Within.relinked {o n : ℤ} (h : db.Within limits) (hne : o ≠ n)
    (hr : Relinked o n db db') : db'.Within limits := by
  refine ⟨?_, ?_, ?_⟩
  · rw [countFiles, hr.files]
    exact ((h.setStatus o .relinked).setStatus n .present).files
  · rw [countTags, hr.tags]
    exact h.tags
  · rw [hr.fileTags]
    exact quota_relinkedTags hne h.relations hr.room

theorem Within.apply (h : db.Within limits) (op : Operation) : (db.apply limits op).Within limits := by
  cases op with
  | scanComplete now xs fl => exact transaction_keeps h fun _ _ hb => h.scanBody hb
  | scanError msg fl => exact statement_keeps h ⟨h.files, h.tags, h.relations⟩
  | createTag name color storage fl =>
    exact transaction_keeps h fun _ _ hb => h.createTagBody hb
  | updateTag id name color fl => exact h.updateTag id name color fl
  | deleteTag id fl => exact h.deleteTag id fl
  | mutateTags fileIds tagIds add storage fl =>
    exact transaction_keeps h fun _ _ hb =>
      mutateTagsBody_rule (fun _ _ => Within.survives) h hb
  | relink o n fl =>
    obtain ⟨-, hne, hr⟩ | ⟨-, heq⟩ := relink_cases o n fl db
    · exact h.relinked hne hr
    · show (relink o n fl db).2.Within limits
      rw [heq]
      exact h
  | confirm id fl => exact statement_keeps h (h.of_updateWhere _ _)

theorem Within.of_reachable {ok : Database → Operation → Prop}
    (h : (taggingMachine limits).Reachable ok db) : db.Within limits := by
  refine h.invariant ⟨Nat.zero_le _, Nat.zero_le _, .empty⟩ fun s op s' _ ih _ hs => ?_
  obtain ⟨⟩ := hs
  exact ih.apply op

end Database

/-- **Limits and relinks.** In every run no file has more than sixteen tags and no table has more
    rows than its limit. A relink that succeeds gives the new file the tags of both, the old file
    none, and leaves the tags of every other file alone. -/
theorem tag_limits_and_relink (limits : Limits) :
    ∀ db, (taggingMachine limits).Reachable (fun _ _ => True) db →
      (∀ file, db.tagCount file ≤ 16) ∧
      (db.countTags ≤ limits.tags ∧ db.countFiles ≤ limits.files ∧
        db.countFileTags ≤ limits.relations) ∧
      ∀ oldId newId fails, (db.relink oldId newId fails).1 = .ok () →
        let db' := (db.relink oldId newId fails).2
        (∀ tag, db'.fileTags.get (newId, tag) = some () ↔
          db.fileTags.get (newId, tag) = some () ∨ db.fileTags.get (oldId, tag) = some ()) ∧
        (∀ tag, db'.fileTags.get (oldId, tag) = none) ∧
        ∀ file tag, file ≠ oldId → file ≠ newId →
          db'.fileTags.get (file, tag) = db.fileTags.get (file, tag) := by
  intro db hr
  have hw := Database.Within.of_reachable hr
  refine ⟨hw.relations.owned, ⟨hw.tags, hw.files, hw.relations.rows⟩, ?_⟩
  intro oldId newId fails hok
  obtain ⟨-, hne, hrl⟩ | ⟨⟨failure, hf⟩, -⟩ := Database.relink_cases oldId newId fails db
  · simp only
    rw [hrl.fileTags]
    refine ⟨fun tag => ?_, fun tag => ?_, fun file tag hold hn => ?_⟩
    · rw [Database.get_relinkedTags]
      constructor
      · rintro ⟨-, ⟨-, h⟩ | h⟩
        · exact .inr h
        · exact .inl h
      · rintro (h | h)
        · exact ⟨hne.symm, .inr h⟩
        · exact ⟨hne.symm, .inl ⟨rfl, h⟩⟩
    · by_contra hs
      obtain ⟨⟨⟩, hg⟩ := Option.ne_none_iff_exists'.mp hs
      exact ((Database.get_relinkedTags _ _).mp hg).1 rfl
    · ext ⟨⟩
      rw [Database.get_relinkedTags]
      constructor
      · rintro ⟨-, ⟨h, -⟩ | h⟩
        · exact absurd h hn
        · exact h
      · intro h
        exact ⟨hold, .inr h⟩
  · rw [hf] at hok
    exact nomatch hok

/-- A file is scanned and tagged, and then another file is found under its path. -/
def replacedFile : List Operation :=
  [.scanComplete 1 [⟨⟨"a", "", "a", ⟨1, 1, 0, 0, 0⟩⟩, false, none⟩] false,
    .createTag "x" none none false,
    .mutateTags [1] [1] true (fun _ _ => none) false,
    .scanComplete 2 [⟨⟨"a", "", "a", ⟨1, 2, 0, 0, 0⟩⟩, false, none⟩] false]

/-- The tag is moved to the file that is there now. -/
theorem tag_limits_and_relink_replaced :
    ∃ db, (taggingMachine ⟨5, 5, 5⟩).Reachable (fun _ _ => True) db ∧
      (db.relink 1 2 false).1 = .ok () ∧
      (db.relink 1 2 false).2.fileTags.get (2, 1) = some () := by
  obtain ⟨db, hr, ht⟩ := (taggingMachine ⟨5, 5, 5⟩).exists_reachable_of_run replacedFile
    (fun db => decide ((db.relink 1 2 false).1 = .ok ()) &&
      decide (db.fileTags.get (1, 1) = some ())) (fun _ _ _ => trivial) (by decide)
  rw [Bool.and_eq_true, decide_eq_true_iff, decide_eq_true_iff] at ht
  have hrl := (tag_limits_and_relink ⟨5, 5, 5⟩ db hr).2.2 1 2 false ht.1
  exact ⟨db, hr, ht.1, (hrl.1 1).mpr (.inr ht.2)⟩

end DufsRam.Tagging
