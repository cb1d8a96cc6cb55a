import DufsRam.Tagging.Relations

/-!
# Scans of the tag database

What a scan does to the rows of `files`: a path has at most one current row, a scan leaves exactly
the rows of its samples current, and a file that has become another one starts without tags.

Results:
* `Database.Sound.of_reachable`: the invariant of every run.
* `Database.scanLoop_scanned`: what the loop over the samples has done.
* `scans_keep_identity`: what holds of scans in every run.
-/

namespace DufsRam.Tagging

namespace Database

/-! ## Invariants -/

/-- A current row. -/
structure Live (db : Database) (id : ℤ) (row : FileRow) : Prop where
  get : db.files.get id = some row
  current : row.status.isCurrent = true

/-- At most one current row for a path. -/
def Unique (db : Database) : Prop :=
  ∀ id id' row row', db.Live id row → db.Live id' row' → row.path = row'.path → id = id'

/-- What holds in every run. -/
structure Sound (db : Database) : Prop where
  unique : db.Unique
  seen : ∀ id row, db.files.get id = some row → row.lastSeenGeneration ≤ db.root.scanGeneration
  tagged : ∀ file tag, db.fileTags.get (file, tag) = some () → ∃ row, db.files.get file = some row

/-- The same file under another status, seen by another scan. -/
structure SameFile (row row' : FileRow) : Prop where
  path : row'.path = row.path
  parent : row'.parent = row.parent
  name : row'.name = row.name
  identity : row'.identity = row.identity

theorem SameFile.refl (row : FileRow) : SameFile row row := ⟨rfl, rfl, rfl, rfl⟩

theorem SameFile.trans {row₁ row₂ row₃ : FileRow} (h : SameFile row₁ row₂) (h' : SameFile row₂ row₃) :
    SameFile row₁ row₃ :=
  ⟨h'.path.trans h.path, h'.parent.trans h.parent, h'.name.trans h.name,
    h'.identity.trans h.identity⟩

/-- What becomes of a row: its file stays, and it stays as current as it was or becomes missing. -/
structure Aged (row row' : FileRow) : Prop where
  same : SameFile row row'
  status : row'.status = row.status ∨ row'.status = .missing

theorem Aged.refl (row : FileRow) : Aged row row := ⟨.refl row, .inl rfl⟩

theorem Aged.trans {row₁ row₂ row₃ : FileRow} (h : Aged row₁ row₂) (h' : Aged row₂ row₃) :
    Aged row₁ row₃ := by
  refine ⟨h.same.trans h'.same, ?_⟩
  obtain heq | hm := h'.status
  · rw [heq]
    exact h.status
  · exact .inr hm

variable {row : FileRow} {sample : Sample} {id : ℤ} {samples : List Sample}

theorem Aged.current {row' : FileRow} (h : Aged row row') (hc : row'.status.isCurrent = true) :
    row.status.isCurrent = true := by
  obtain heq | hm := h.status
  · rw [← heq]
    exact hc
  · rw [hm] at hc
    exact nomatch hc

/-! ## One sample -/

/-- The row that a sample is found under, in the scan of a generation. -/
structure Found (db : Database) (generation : ℤ) (sample : Sample) (id : ℤ) (row : FileRow) :
    Prop where
  live : db.Live id row
  path : row.path = sample.path
  identity : row.identity = sample.identity
  seen : row.lastSeenGeneration = generation

/-- What one sample has done to the tables. -/
structure Sampled (generation : ℤ) (sample : Sample) (db db' : Database) : Prop where
  /-- Rows of other paths, and rows that are not current, stay as they are. -/
  other : ∀ id row, db.files.get id = some row →
    row.path ≠ sample.path ∨ row.status.isCurrent = false → db'.files.get id = some row
  aged : ∀ id row, db.files.get id = some row → ∃ row', db'.files.get id = some row' ∧ Aged row row'
  found : ∃ id row, db'.Found generation sample id row
  /-- A current row of the path is the one found. -/
  only : ∀ id row, db'.Live id row → row.path = sample.path → db'.Found generation sample id row
  unique : db'.Unique
  /-- A row of another path was there. -/
  from_other : ∀ id row, db'.files.get id = some row → row.path ≠ sample.path →
    db.files.get id = some row
  bound : (∀ id row, db.files.get id = some row → row.lastSeenGeneration ≤ generation) →
    ∀ id row, db'.files.get id = some row → row.lastSeenGeneration ≤ generation
  fileTags : db'.fileTags = db.fileTags
  tags : db'.tags = db.tags
  root : db'.root = db.root

variable {db db' : Database} {limits : Limits} {generation : ℤ} {item : ScanItem}
  {retained retained' : ℕ}

theorem Unique.of_back (hu : db.Unique) (hb : ∀ id row', db'.files.get id = some row' →
    ∃ row, db.files.get id = some row ∧ row'.path = row.path ∧
      (row'.status.isCurrent = true → row.status.isCurrent = true)) : db'.Unique := by
  rintro id id' row row' ⟨hr, hc⟩ ⟨hr', hc'⟩ hp
  obtain ⟨old, hold, hpt, hl⟩ := hb id row hr
  obtain ⟨old', ho', hp', hl'⟩ := hb id' row' hr'
  exact hu id id' old old' ⟨hold, hl hc⟩ ⟨ho', hl' hc'⟩ (hpt.symm.trans (hp.trans hp'))

/-- The current row of the sample's path is another one now, and no other row has changed. -/
structure Rewritten (sample : Sample) (id : ℤ) (row new : FileRow) (db db' : Database) : Prop where
  live : db.Live id row
  path : row.path = sample.path
  aged : Aged row new
  get : ∀ k, db'.files.get k = if k = id then some new else db.files.get k

namespace Rewritten

variable {new row' : FileRow} {k : ℤ} (h : Rewritten sample id row new db db')

include h

theorem cases (hr : db'.files.get k = some row') :
    k = id ∧ row' = new ∨ k ≠ id ∧ db.files.get k = some row' := by
  rw [h.get] at hr
  split_ifs at hr with hk
  · exact .inl ⟨hk, (Option.some.inj hr).symm⟩
  · exact .inr ⟨hk, hr⟩

theorem other (hr : db.files.get k = some row')
    (ho : row'.path ≠ sample.path ∨ row'.status.isCurrent = false) :
    db'.files.get k = some row' := by
  have hne : k ≠ id := by
    rintro rfl
    obtain ⟨⟩ := (h.live.get.symm.trans hr)
    obtain ho | ho := ho
    · exact ho h.path
    · rw [h.live.current] at ho
      exact nomatch ho
  rw [h.get, if_neg hne, hr]

theorem forward (hr : db.files.get k = some row') :
    ∃ row'', db'.files.get k = some row'' ∧ Aged row' row'' := by
  by_cases hk : k = id
  · subst hk
    obtain ⟨⟩ := (h.live.get.symm.trans hr)
    exact ⟨new, by rw [h.get, if_pos rfl], h.aged⟩
  · exact ⟨row', by rw [h.get, if_neg hk, hr], .refl row'⟩

/-- A row of another path was there. -/
theorem from_other (hr : db'.files.get k = some row') (ho : row'.path ≠ sample.path) :
    db.files.get k = some row' := by
  obtain ⟨-, rfl⟩ | ⟨-, hold⟩ := h.cases hr
  · exact absurd (h.aged.same.path.trans h.path) ho
  · exact hold

theorem unique (hu : db.Unique) : db'.Unique := by
  refine hu.of_back fun k row' hr => ?_
  obtain ⟨rfl, rfl⟩ | ⟨-, hold⟩ := h.cases hr
  · exact ⟨row, h.live.get, h.aged.same.path, h.aged.current⟩
  · exact ⟨row', hold, rfl, fun hc => hc⟩

/-- A current row of the path is the new one. -/
theorem eq_of_live (hu : db.Unique) (hl : db'.Live k row') (hp : row'.path = sample.path) :
    k = id ∧ row' = new := by
  obtain hn | ⟨hne, hold⟩ := h.cases hl.get
  · exact hn
  · exact absurd (hu k id row' row ⟨hold, hl.current⟩ h.live (hp.trans h.path.symm)) hne

end Rewritten

/-- The row that is seen again. -/
theorem Sampled.of_seen (hu : db.Unique) (hl : db.Live id row)
    (hp : row.path = sample.path) (hid : row.identity = sample.identity) :
    Sampled generation sample db { db with
      files := db.files.updateWhere (fun k _ => decide (k = id)) fun row =>
        { row with lastSeenGeneration := generation } } := by
  have hw : Rewritten sample id row { row with lastSeenGeneration := generation } db { db with
      files := db.files.updateWhere (fun k _ => decide (k = id)) fun row =>
        { row with lastSeenGeneration := generation } } := by
    refine ⟨hl, hp, ⟨⟨rfl, rfl, rfl, rfl⟩, .inl rfl⟩, fun k => ?_⟩
    by_cases hk : k = id <;> simp [hk, hl.get]
  have hf := (hw.get id).trans (if_pos rfl)
  refine ⟨fun _ _ => hw.other, fun _ _ => hw.forward, ⟨id, _, ⟨hf, hl.current⟩, hp, hid, rfl⟩,
    fun k row' hl' hp' => ?_, hw.unique hu, fun _ _ => hw.from_other,
    fun hbn k row' hr' => ?_, rfl, rfl, rfl⟩
  · obtain ⟨rfl, rfl⟩ := hw.eq_of_live hu hl' hp'
    exact ⟨hl', hp, hid, rfl⟩
  · obtain ⟨-, rfl⟩ | ⟨-, hold⟩ := hw.cases hr'
    · exact le_rfl
    · exact hbn k row' hold

/-- The path of the sample has no current row left, and nothing else has changed. -/
structure Retired (sample : Sample) (db retired : Database) : Prop where
  other : ∀ id row, db.files.get id = some row →
    row.path ≠ sample.path ∨ row.status.isCurrent = false → retired.files.get id = some row
  aged : ∀ id row, db.files.get id = some row →
    ∃ row', retired.files.get id = some row' ∧ Aged row row'
  back : ∀ id row', retired.files.get id = some row' → ∃ row, db.files.get id = some row ∧
    Aged row row' ∧ row'.lastSeenGeneration = row.lastSeenGeneration ∧
    (row'.path ≠ sample.path → row' = row)
  cleared : ∀ id row, retired.Live id row → row.path ≠ sample.path
  fileTags : retired.fileTags = db.fileTags
  tags : retired.tags = db.tags
  root : retired.root = db.root

theorem Retired.of_none (h : db.currentRow sample.path = none) : Retired sample db db where
  other _ _ hr _ := hr
  aged _ row hr := ⟨row, hr, .refl row⟩
  back _ row hr := ⟨row, hr, .refl row, rfl, fun _ => rfl⟩
  cleared id row hl hp := by
    have hf := currentRow_eq_none h hl.get hp
    rw [hl.current] at hf
    exact nomatch hf
  fileTags := rfl
  tags := rfl
  root := rfl

theorem Retired.of_missing (hu : db.Unique) (hl : db.Live id row) (hp : row.path = sample.path) :
    Retired sample db (db.setStatus id .missing) := by
  have hw : Rewritten sample id row { row with status := .missing } db
      (db.setStatus id .missing) := by
    refine ⟨hl, hp, ⟨⟨rfl, rfl, rfl, rfl⟩, .inr rfl⟩, fun k => ?_⟩
    by_cases hk : k = id <;> simp [get_setStatus, hk, hl.get]
  refine ⟨fun _ _ => hw.other, fun _ _ => hw.forward, fun k row' hr' => ?_,
    fun k row' hl' hp' => ?_, rfl, rfl, rfl⟩
  · obtain ⟨rfl, rfl⟩ | ⟨-, hold⟩ := hw.cases hr'
    · exact ⟨row, hl.get, hw.aged, rfl, fun ho => absurd hp ho⟩
    · exact ⟨row', hold, .refl row', rfl, fun _ => rfl⟩
  · obtain ⟨rfl, rfl⟩ := hw.eq_of_live hu hl' hp'
    exact nomatch hl'.current

theorem Retired.unique {ret : Database} (h : Retired sample db ret) (hu : db.Unique) :
    ret.Unique := by
  refine hu.of_back fun id row' hr => ?_
  obtain ⟨row, hold, ha, -⟩ := h.back id row' hr
  exact ⟨row, hold, ha.same.path, ha.current⟩

/-- A row is inserted where no row of the path is current. -/
theorem Sampled.of_inserted {ret : Database} {st : FileStatus} (hu : db.Unique)
    (hrt : Retired sample db ret) (hs : st.isCurrent = true) :
    Sampled generation sample db (ret.withSample sample st generation) := by
  have hfr := get_nextRowId ret.files
  have hkp {k : ℤ} {row : FileRow} (hr : ret.files.get k = some row) :
      (ret.withSample sample st generation).files.get k = some row := by
    refine Table.get_put_of_ne hr fun hk => ?_
    rw [hk, hfr] at hr
    exact nomatch hr
  have hf : (ret.withSample sample st generation).Found generation sample (nextRowId ret.files)
      ⟨sample.path, sample.parent, sample.name, sample.identity, st, generation⟩ := by
    refine ⟨⟨?_, hs⟩, rfl, rfl, rfl⟩
    show (ret.files.put _ _).get _ = _
    rw [Table.get_put, if_pos rfl]
  -- A current row of the path is the new one.
  have hon (k : ℤ) (row : FileRow) (hl : (ret.withSample sample st generation).Live k row)
      (hp : row.path = sample.path) : k = nextRowId ret.files ∧
      row = ⟨sample.path, sample.parent, sample.name, sample.identity, st, generation⟩ := by
    obtain hn | ⟨-, hold⟩ := Table.get_put_cases hl.get
    · exact hn
    · exact absurd hp (hrt.cleared k row ⟨hold, hl.current⟩)
  refine ⟨?_, ?_, ⟨_, _, hf⟩, ?_, ?_, ?_, ?_, hrt.fileTags, hrt.tags, hrt.root⟩
  · intro k row hr ho
    exact hkp (hrt.other k row hr ho)
  · intro k row hr
    obtain ⟨row', hr', ha⟩ := hrt.aged k row hr
    exact ⟨row', hkp hr', ha⟩
  · intro k row hl hp
    obtain ⟨rfl, rfl⟩ := hon k row hl hp
    exact hf
  · intro k k' row row' hl hl' hpt
    by_cases hp : row.path = sample.path
    · exact (hon k row hl hp).1.trans (hon k' row' hl' (hpt.symm.trans hp)).1.symm
    have hold (k : ℤ) (row : FileRow) (hl : (ret.withSample sample st generation).Live k row)
        (hp : row.path ≠ sample.path) : ret.Live k row := by
      obtain ⟨-, rfl⟩ | ⟨-, hold⟩ := Table.get_put_cases hl.get
      · exact absurd rfl hp
      · exact ⟨hold, hl.current⟩
    exact hrt.unique hu k k' row row' (hold k row hl hp) (hold k' row' hl' (hpt ▸ hp)) hpt
  · intro k row hr ho
    obtain ⟨-, rfl⟩ | ⟨-, hold⟩ := Table.get_put_cases hr
    · exact absurd rfl ho
    · obtain ⟨row₀, hr₀, -, -, heq⟩ := hrt.back k row hold
      rw [heq ho]
      exact hr₀
  · intro hb k row hr
    obtain ⟨-, rfl⟩ | ⟨-, hold⟩ := Table.get_put_cases hr
    · exact le_rfl
    · obtain ⟨row₀, hr₀, -, hsn, -⟩ := hrt.back k row hold
      rw [hsn]
      exact hb k row₀ hr₀

theorem scanSample_sampled (hu : db.Unique)
    (h : scanSample limits generation item db retained = .ok (db', retained')) :
    Sampled generation item.sample db db' := by
  obtain ⟨id, row, hc, hid, -, rfl⟩ | ⟨ret, st, hr, hs, -, -, rfl⟩ := scanSample_cases h
  · obtain ⟨hg, hp, hl⟩ := currentRow_eq_some hc
    exact .of_seen hu ⟨hg, hl⟩ hp hid
  refine .of_inserted hu ?_ hs
  obtain ⟨id, row, hc, -, rfl⟩ | ⟨hn, rfl⟩ := hr
  · obtain ⟨hg, hp, hl⟩ := currentRow_eq_some hc
    exact .of_missing hu ⟨hg, hl⟩ hp
  · exact .of_none hn

/-! ## The loop -/

/-- What the samples so far have done to the tables. -/
structure Scanned (generation : ℤ) (samples : List Sample) (db db' : Database) : Prop where
  aged : ∀ id row, db.files.get id = some row → ∃ row', db'.files.get id = some row' ∧ Aged row row'
  found : ∀ sample ∈ samples, ∃ id row, db'.Found generation sample id row
  /-- What the scan has seen it has seen in a sample. -/
  only : ∀ id row, db'.Live id row → row.lastSeenGeneration = generation →
    ∃ sample ∈ samples, row.path = sample.path ∧ row.identity = sample.identity
  unique : db'.Unique
  bound : ∀ id row, db'.files.get id = some row → row.lastSeenGeneration ≤ generation
  fileTags : db'.fileTags = db.fileTags
  tags : db'.tags = db.tags
  root : db'.root = db.root

/-- One more sample, of a path that has not been scanned. -/
theorem Scanned.sampled {db db₁ db₂ : Database} (h : Scanned generation samples db db₁)
    (hst : Sampled generation sample db₁ db₂) (hp : ∀ s ∈ samples, s.path ≠ sample.path) :
    Scanned generation (samples ++ [sample]) db db₂ := by
  refine ⟨?_, ?_, ?_, hst.unique, hst.bound h.bound, hst.fileTags.trans h.fileTags,
    hst.tags.trans h.tags, hst.root.trans h.root⟩
  · intro id row hr
    obtain ⟨row₁, hr₁, ha₁⟩ := h.aged id row hr
    obtain ⟨row₂, hr₂, ha₂⟩ := hst.aged id row₁ hr₁
    exact ⟨row₂, hr₂, ha₁.trans ha₂⟩
  · intro s hs
    obtain hs | hs := List.mem_append.mp hs
    · obtain ⟨id, row, hf⟩ := h.found s hs
      have ho : row.path ≠ sample.path := hf.path ▸ hp s hs
      exact ⟨id, row, ⟨hst.other id row hf.live.get (.inl ho), hf.live.current⟩,
        hf.path, hf.identity, hf.seen⟩
    · rw [List.mem_singleton.mp hs]
      exact hst.found
  · intro id row hl hsn
    by_cases ho : row.path = sample.path
    · have hf := hst.only id row hl ho
      exact ⟨sample, List.mem_append_right _ List.mem_cons_self, hf.path, hf.identity⟩
    · obtain ⟨s, hs, hr⟩ := h.only id row ⟨hst.from_other id row hl.get ho, hl.current⟩ hsn
      exact ⟨s, List.mem_append_left _ hs, hr⟩

theorem scanLoop_scanned {db₀ : Database} {xs : List ScanItem}
    (hp : ((samples ++ xs.map ScanItem.sample).map Sample.path).Nodup)
    (hsc : Scanned generation samples db₀ db)
    (h : scanLoop limits generation xs db retained = .ok db') :
    Scanned generation (samples ++ xs.map ScanItem.sample) db₀ db' := by
  induction xs generalizing db retained samples with
  | nil =>
    obtain ⟨⟩ := h
    rw [List.map_nil, List.append_nil]
    exact hsc
  | cons item xs ih =>
    rw [scanLoop] at h
    split at h
    · cases h
    rename_i db₁ ret₁ hsm
    rw [List.map_cons, List.append_cons] at hp ⊢
    refine ih hp (hsc.sampled (scanSample_sampled hsc.unique hsm) ?_) h
    intro s hs heq
    -- The paths of the samples are distinct.
    rw [List.map_append, List.map_append] at hp
    have hd := (List.nodup_append.mp (List.nodup_append.mp hp).1).2.2
    exact hd s.path (List.mem_map_of_mem hs) item.sample.path
      (by rw [List.map_cons]; exact List.mem_cons_self) heq

/-! ## A whole scan -/

/-- What a scan that has succeeded has done. -/
structure ScanDone (samples : List Sample) (db db' : Database) : Prop where
  /-- Every sample has a current row. -/
  found : ∀ sample ∈ samples, ∃ id row, db'.Live id row ∧ row.path = sample.path ∧
    row.identity = sample.identity
  /-- Every current row is that of a sample. -/
  only : ∀ id row, db'.Live id row →
    ∃ sample ∈ samples, row.path = sample.path ∧ row.identity = sample.identity
  aged : ∀ id row, db.files.get id = some row → ∃ row', db'.files.get id = some row' ∧ Aged row row'
  fileTags : db'.fileTags = db.fileTags
  tags : db'.tags = db.tags
  sound : db'.Sound

theorem get_finishScan (generation now : ℤ) (db : Database) (id : ℤ) :
    (finishScan generation now db).files.get id = (db.files.get id).map fun row =>
      if row.status.isCurrent && decide (row.lastSeenGeneration ≠ generation) then
        { row with status := .missing }
      else row := by
  simp [finishScan]

/-- The sweep leaves what the scan has seen. -/
theorem live_finishScan {now : ℤ} : (finishScan generation now db).Live id row ↔
      db.Live id row ∧ row.lastSeenGeneration = generation := by
  constructor
  · rintro ⟨hr, hc⟩
    rw [get_finishScan, Option.map_eq_some_iff] at hr
    obtain ⟨row₀, hr₀, rfl⟩ := hr
    split_ifs at hc ⊢ with hs
    · exact nomatch hc
    · rw [hc, Bool.true_and, decide_eq_true_iff, not_not] at hs
      exact ⟨⟨hr₀, hc⟩, hs⟩
  · rintro ⟨⟨hr, hc⟩, hsn⟩
    refine ⟨?_, hc⟩
    rw [get_finishScan, hr, Option.map_some, if_neg]
    simp [hsn]

theorem aged_finishScan {now : ℤ} (h : db.files.get id = some row) :
    ∃ row', (finishScan generation now db).files.get id = some row' ∧ Aged row row' ∧
      row'.lastSeenGeneration = row.lastSeenGeneration := by
  refine ⟨_, by rw [get_finishScan, h, Option.map_some], ?_⟩
  split_ifs
  · exact ⟨⟨⟨rfl, rfl, rfl, rfl⟩, .inr rfl⟩, rfl⟩
  · exact ⟨.refl row, rfl⟩

/-- Nothing is there that was not there before the sweep. -/
theorem of_get_finishScan {now : ℤ} {row' : FileRow}
    (h : (finishScan generation now db).files.get id = some row') :
    ∃ row, db.files.get id = some row ∧ row'.lastSeenGeneration = row.lastSeenGeneration := by
  rw [get_finishScan, Option.map_eq_some_iff] at h
  obtain ⟨row, hr, rfl⟩ := h
  refine ⟨row, hr, ?_⟩
  split_ifs
  · rfl
  · rfl

/-- Before the first sample. -/
theorem Sound.scanned (h : db.Sound) : Scanned (db.root.scanGeneration + 1) [] db db where
  aged _ row hr := ⟨row, hr, .refl row⟩
  found _ hs := absurd hs List.not_mem_nil
  only id row hl hsn := by
    have := h.seen id row hl.get
    omega
  unique := h.unique
  bound id row hr := by
    have := h.seen id row hr
    omega
  fileTags := rfl
  tags := rfl
  root := rfl

theorem Scanned.finish {db db₁ : Database} (h : db.Sound)
    (hs : Scanned generation samples db db₁) (now : ℤ) :
    ScanDone samples db (finishScan generation now db₁) where
  found sample hsm := by
    obtain ⟨id, row, hf⟩ := hs.found sample hsm
    exact ⟨id, row, live_finishScan.mpr ⟨hf.live, hf.seen⟩, hf.path, hf.identity⟩
  only id row hl := by
    obtain ⟨hl, hsn⟩ := live_finishScan.mp hl
    exact hs.only id row hl hsn
  aged id row hr := by
    obtain ⟨row₁, hr₁, ha₁⟩ := hs.aged id row hr
    obtain ⟨row₂, hr₂, ha₂, -⟩ := aged_finishScan hr₁
    exact ⟨row₂, hr₂, ha₁.trans ha₂⟩
  fileTags := hs.fileTags
  tags := hs.tags
  sound := by
    refine ⟨?_, ?_, ?_⟩
    · intro id id' row row' hl hl' hp
      exact hs.unique id id' row row' (live_finishScan.mp hl).1 (live_finishScan.mp hl').1 hp
    · intro id row hr
      obtain ⟨row₁, hr₁, hsn⟩ := of_get_finishScan hr
      rw [hsn]
      exact hs.bound id row₁ hr₁
    · intro file tag ht
      rw [show (finishScan generation now db₁).fileTags = db.fileTags from hs.fileTags] at ht
      obtain ⟨row, hr⟩ := h.tagged file tag ht
      obtain ⟨row₁, hr₁, -⟩ := hs.aged file row hr
      obtain ⟨row₂, hr₂, -⟩ := aged_finishScan hr₁
      exact ⟨row₂, hr₂⟩

/-- A scan succeeds and does this, or it fails and does nothing. -/
theorem scanComplete_cases (h : db.Sound) (limits : Limits) (now : ℤ) {xs : List ScanItem}
    (hp : ((xs.map ScanItem.sample).map Sample.path).Nodup) (fl : Bool) :
    ((scanComplete limits now xs fl db).1 = .ok () ∧
      ScanDone (xs.map ScanItem.sample) db (scanComplete limits now xs fl db).2) ∨
    ((∃ fail, (scanComplete limits now xs fl db).1 = .error fail) ∧
      (scanComplete limits now xs fl db).2 = db) := by
  obtain ⟨a, hok, hb⟩ | hf := transaction_cases fl (scanBody limits now xs) db
  · refine .inl ⟨hok, ?_⟩
    show ScanDone _ db (transaction fl (scanBody limits now xs) db).2
    generalize (transaction fl (scanBody limits now xs) db).2 = db' at hb
    simp only [scanBody] at hb
    split at hb
    · cases hb
    · rename_i db₁ hl
      obtain ⟨-, rfl⟩ := Prod.mk.inj (Except.ok.inj hb)
      exact (scanLoop_scanned hp h.scanned hl).finish h now
  · exact .inr hf

/-! ## The other calls -/

/-- A call that is no scan makes no row current, and tags only files that are there. -/
structure Keeps (db db' : Database) : Prop where
  back : ∀ id row', db'.files.get id = some row' → ∃ row, db.files.get id = some row ∧
    row'.path = row.path ∧ row'.lastSeenGeneration = row.lastSeenGeneration ∧
    (row'.status.isCurrent = true → row.status.isCurrent = true)
  forth : ∀ id row, db.files.get id = some row → ∃ row', db'.files.get id = some row'
  generation : db'.root.scanGeneration = db.root.scanGeneration
  tagged : ∀ file tag, db'.fileTags.get (file, tag) = some () →
    db.fileTags.get (file, tag) = some () ∨ ∃ row, db.files.get file = some row

theorem Sound.keeps (h : db.Sound) (hk : Keeps db db') : db'.Sound where
  unique := by
    refine h.unique.of_back fun id row' hr => ?_
    obtain ⟨row, hold, hp, -, hl⟩ := hk.back id row' hr
    exact ⟨row, hold, hp, hl⟩
  seen id row hr := by
    obtain ⟨old, hold, -, hs, -⟩ := hk.back id row hr
    rw [hs, hk.generation]
    exact h.seen id old hold
  tagged file tag ht := by
    obtain hb | ⟨row, hr⟩ := hk.tagged file tag ht
    · obtain ⟨row, hr⟩ := h.tagged file tag hb
      exact hk.forth file row hr
    · exact hk.forth file row hr

/-- A call that leaves `files` and the generation alone. -/
theorem Keeps.of_files (hf : db'.files = db.files)
    (hg : db'.root.scanGeneration = db.root.scanGeneration)
    (ht : ∀ file tag, db'.fileTags.get (file, tag) = some () →
      db.fileTags.get (file, tag) = some () ∨ ∃ row, db.files.get file = some row) : Keeps db db' where
  back id row hr := by
    rw [hf] at hr
    exact ⟨row, hr, rfl, rfl, fun hc => hc⟩
  forth id row hr := ⟨row, hf ▸ hr⟩
  generation := hg
  tagged := ht

theorem Keeps.refl (db : Database) : Keeps db db := .of_files rfl rfl fun _ _ h => .inl h

/-- Every row is mapped to one that is as current as it was, or less. -/
theorem Keeps.of_map {f : ℤ → FileRow → FileRow}
    (hfl : ∀ id, db'.files.get id = (db.files.get id).map (f id))
    (hf : ∀ id row, db.files.get id = some row → (f id row).path = row.path ∧
      (f id row).lastSeenGeneration = row.lastSeenGeneration ∧
      ((f id row).status.isCurrent = true → row.status.isCurrent = true))
    (hg : db'.root.scanGeneration = db.root.scanGeneration)
    (ht : ∀ file tag, db'.fileTags.get (file, tag) = some () →
      db.fileTags.get (file, tag) = some () ∨ ∃ row, db.files.get file = some row) : Keeps db db' where
  back id row' hr' := by
    rw [hfl, Option.map_eq_some_iff] at hr'
    obtain ⟨row, hr, rfl⟩ := hr'
    exact ⟨row, hr, hf id row hr⟩
  forth id row hr := ⟨f id row, by rw [hfl, hr, Option.map_some]⟩
  generation := hg
  tagged := ht

theorem Keeps.deleteTag (db : Database) (id : ℤ) (fl : Bool) : Keeps db (deleteTag id fl db).2 := by
  refine statement_keeps (.refl db) (.of_files rfl rfl fun file tag h => .inl ?_)
  rw [Table.get_deleteWhere, Option.bind_eq_some_iff] at h
  obtain ⟨⟨⟩, hg, -⟩ := h
  exact hg

/-- Tags are added to files that are there. -/
theorem Keeps.mutateTags (db : Database) (limits : Limits) (fileIds tagIds : List ℤ) (add : Bool)
    (storage : ℤ → ℤ → Option Failure) (fl : Bool) :
    Keeps db (mutateTags limits fileIds tagIds add storage fl db).2 := by
  refine transaction_keeps (.refl db) fun _ db' hb => ?_
  have hk : db'.files = db.files ∧ db'.root = db.root ∧
      ∀ file tag, db'.fileTags.get (file, tag) = some () →
        db.fileTags.get (file, tag) = some () ∨ ∃ row, db.files.get file = some row := by
    refine mutateTagsBody_rule (P := fun db' => db'.files = db.files ∧ db'.root = db.root ∧
      ∀ file tag, db'.fileTags.get (file, tag) = some () →
        db.fileTags.get (file, tag) = some () ∨ ∃ row, db.files.get file = some row)
      (fun hc _ => ⟨?_, ?_⟩) ⟨rfl, rfl, fun _ _ h => .inl h⟩ hb
    · rintro db₁ file tag ⟨hf, hr, ht⟩ hfl - - - -
      refine ⟨hf, hr, fun file' tag' h => ?_⟩
      obtain ⟨hky, -⟩ | ⟨-, h⟩ := Table.get_put_cases h
      · obtain ⟨rfl, rfl⟩ := Prod.mk.inj hky
        obtain ⟨row, hrw, -⟩ := (Option.any_eq_true _ _).mp (hc file' hfl)
        exact .inr ⟨row, hrw⟩
      · exact ht file' tag' h
    · rintro db₁ file tag ⟨hf, hr, ht⟩
      exact ⟨hf, hr, fun file' tag' h => ht file' tag' (Table.get_of_get_erase h).2⟩
  exact .of_files hk.1 (by rw [hk.2.1]) hk.2.2

theorem Keeps.relinked {o n : ℤ} (h : Relinked o n db db') : Keeps db db' := by
  refine .of_map (f := fun id row =>
    if id = n then { (if id = o then { row with status := .relinked } else row) with
      status := .present }
    else if id = o then { row with status := .relinked } else row) ?_ ?_ ?_ ?_
  · intro id
    rw [h.files, get_setStatus, get_setStatus, Option.map_map]
    rfl
  · intro id row hr
    -- The new file was current, and the old one is not any more.
    have hc (hn : id = n) : row.status.isCurrent = true := by
      obtain ⟨row', hr', hs⟩ := (Option.any_eq_true _ _).mp h.current
      rw [← hn, hr] at hr'
      rw [Option.some.inj hr']
      exact hs
    split_ifs with hn hold hold
    · exact ⟨rfl, rfl, fun _ => hc hn⟩
    · exact ⟨rfl, rfl, fun _ => hc hn⟩
    · exact ⟨rfl, rfl, fun hf => nomatch hf⟩
    · exact ⟨rfl, rfl, fun hs => hs⟩
  · rw [h.root]
  · intro file tag ht
    rw [h.fileTags, get_relinkedTags] at ht
    obtain ⟨-, ⟨rfl, -⟩ | ht⟩ := ht
    · obtain ⟨row, hr, -⟩ := (Option.any_eq_true _ _).mp h.current
      exact .inr ⟨row, hr⟩
    · exact .inl ht

theorem Keeps.confirm (db : Database) (id : ℤ) (fl : Bool) : Keeps db (confirm id fl db).2 := by
  refine statement_keeps (.refl db) (.of_map (f := fun k row =>
    if decide (k = id) && decide (row.status = .suspect) then { row with status := .present }
    else row) ?_ ?_ rfl fun _ _ h => .inl h)
  · intro k
    exact db.files.get_updateWhere _ _ k
  intro k row _
  split_ifs with hs
  · rw [Bool.and_eq_true, decide_eq_true_iff, decide_eq_true_iff] at hs
    rw [hs.2]
    exact ⟨rfl, rfl, fun _ => rfl⟩
  · exact ⟨rfl, rfl, fun hst => hst⟩

/-- The paths of the samples of a scan are distinct. -/
def DistinctPaths (_ : Database) : Operation → Prop
  | .scanComplete _ items _ => ((items.map ScanItem.sample).map Sample.path).Nodup
  | _ => True

theorem Sound.apply (h : db.Sound) (limits : Limits) {op : Operation} (hp : DistinctPaths db op) :
    (db.apply limits op).Sound := by
  cases op with
  | scanComplete now xs fl =>
    obtain ⟨-, hd⟩ | ⟨-, heq⟩ := scanComplete_cases h limits now hp fl
    · exact hd.sound
    · show (scanComplete limits now xs fl db).2.Sound
      rw [heq]
      exact h
  | scanError msg fl =>
    exact statement_keeps h (h.keeps (.of_files rfl rfl fun _ _ ht => .inl ht))
  | createTag name color storage fl =>
    refine transaction_keeps h fun _ db' hb => ?_
    obtain ⟨-, rfl, rfl⟩ := createTagBody_eq_ok hb
    exact h.keeps (.of_files rfl rfl fun _ _ ht => .inl ht)
  | updateTag id name color fl =>
    show (updateTag id name color fl db).2.Sound
    unfold updateTag
    split_ifs
    · exact h
    · exact statement_keeps h (h.keeps (.of_files rfl rfl fun _ _ ht => .inl ht))
  | deleteTag id fl => exact h.keeps (.deleteTag db id fl)
  | mutateTags fileIds tagIds add storage fl =>
    exact h.keeps (.mutateTags db limits fileIds tagIds add storage fl)
  | relink o n fl =>
    obtain ⟨-, -, hr⟩ | ⟨-, heq⟩ := relink_cases o n fl db
    · exact h.keeps (.relinked hr)
    · show (relink o n fl db).2.Sound
      rw [heq]
      exact h
  | confirm id fl => exact h.keeps (.confirm db id fl)

theorem Sound.new : Database.new.Sound where
  unique _ _ _ _ hl := nomatch hl.get
  seen _ _ hr := nomatch hr
  tagged _ _ ht := nomatch ht

theorem Sound.of_reachable (h : (taggingMachine limits).Reachable DistinctPaths db) : db.Sound := by
  refine h.invariant .new fun s op s' _ ih hp hs => ?_
  obtain ⟨⟩ := hs
  exact ih.apply limits hp

/-- A path that has come to another file. -/
theorem ScanDone.replaced (h : ScanDone samples db db') (hdb : db.Sound)
    (hpt : (samples.map Sample.path).Nodup) (hl : db.Live id row) (hs : sample ∈ samples)
    (hp : row.path = sample.path) (hid : row.identity ≠ sample.identity) :
    (∃ row', db'.files.get id = some row' ∧ row'.status = .missing) ∧
      ∃ n newRow, db.files.get n = none ∧ db'.Live n newRow ∧
        newRow.path = sample.path ∧ newRow.identity = sample.identity ∧
        ∀ tag, db'.fileTags.get (n, tag) = none := by
  obtain ⟨n, newRow, hn, hnp, hni⟩ := h.found sample hs
  have hf : db.files.get n = none := by
    by_contra hold
    obtain ⟨old, hold⟩ := Option.ne_none_iff_exists'.mp hold
    obtain ⟨row', hr', ha⟩ := h.aged n old hold
    obtain ⟨⟩ := (hr'.symm.trans hn.get)
    -- The row would be the current one of the path, which has another identity.
    obtain rfl := hdb.unique n id old row ⟨hold, ha.current hn.current⟩ hl
      (ha.same.path.symm.trans (hnp.trans hp.symm))
    obtain ⟨⟩ := (hold.symm.trans hl.get)
    exact hid (ha.same.identity.symm.trans hni)
  constructor
  · obtain ⟨row', hr', ha⟩ := h.aged id row hl.get
    refine ⟨row', hr', ?_⟩
    obtain heq | hm := ha.status
    · -- It would be the row of a sample of the same path, and there is only one.
      obtain ⟨other, ho, hop, hoi⟩ :=
        h.only id row' ⟨hr', by rw [heq]; exact hl.current⟩
      have hsm : other = sample := by
        refine List.inj_on_of_nodup_map hpt ho hs ?_
        rw [← hop, ha.same.path, hp]
      rw [hsm, ha.same.identity] at hoi
      exact absurd hoi hid
    · exact hm
  · refine ⟨n, newRow, hf, hn, hnp, hni, fun tag => ?_⟩
    by_contra ht
    obtain ⟨⟨⟩, ht⟩ := Option.ne_none_iff_exists'.mp ht
    rw [h.fileTags] at ht
    obtain ⟨old, hold⟩ := hdb.tagged n tag ht
    rw [hf] at hold
    exact nomatch hold

end Database

/-- **Scans.** In every run of calls whose scans have samples with distinct paths: a path has at most
    one current row. After a scan that succeeds the current rows are one for every sample, with its
    path and identity. A path that has come to another file has a new row without tags, and its old
    row is missing and keeps its tags. No scan changes the tags of files, and one that fails changes
    nothing. -/
theorem scans_keep_identity (limits : Limits) :
    ∀ db, (taggingMachine limits).Reachable Database.DistinctPaths db →
      (∀ id id' row row', db.Live id row → db.Live id' row' → row.path = row'.path → id = id') ∧
      ∀ now items fails, ((items.map Database.ScanItem.sample).map Sample.path).Nodup →
        let samples := items.map Database.ScanItem.sample
        let result := (db.scanComplete limits now items fails).1
        let db' := (db.scanComplete limits now items fails).2
        db'.fileTags = db.fileTags ∧
        (result ≠ .ok () → db' = db) ∧
        (result = .ok () →
          (∀ sample ∈ samples, ∃! id, ∃ row, db'.Live id row ∧ row.path = sample.path ∧
            row.identity = sample.identity) ∧
          (∀ id row, db'.Live id row →
            ∃ sample ∈ samples, row.path = sample.path ∧ row.identity = sample.identity) ∧
          ∀ id row, db.Live id row → ∀ sample ∈ samples, row.path = sample.path →
            row.identity ≠ sample.identity →
            (∃ row', db'.files.get id = some row' ∧ row'.status = .missing) ∧
            ∃ newId newRow, db.files.get newId = none ∧ db'.Live newId newRow ∧
              newRow.path = sample.path ∧ newRow.identity = sample.identity ∧
              ∀ tag, db'.fileTags.get (newId, tag) = none) := by
  intro db hr
  have hsn := Database.Sound.of_reachable hr
  refine ⟨hsn.unique, fun now items fails hpt => ?_⟩
  obtain ⟨hok, hd⟩ | ⟨⟨failure, hf⟩, hsm⟩ :=
    Database.scanComplete_cases hsn limits now hpt fails
  · refine ⟨hd.fileTags, fun hne => absurd hok hne, fun _ => ⟨?_, hd.only, ?_⟩⟩
    · intro sample hs
      obtain ⟨id, row, hl, hp, hi⟩ := hd.found sample hs
      refine ⟨id, ⟨row, hl, hp, hi⟩, ?_⟩
      rintro id' ⟨row', hl', hp', -⟩
      exact hd.sound.unique id' id row' row hl' hl (hp'.trans hp.symm)
    · intro id row hl sample hs hp hi
      exact hd.replaced hsn hpt hl hs hp hi
  · refine ⟨by rw [hsm], fun _ => hsm, fun hok => ?_⟩
    rw [hf] at hok
    exact nomatch hok

/-- The sample of another file under the path of a tagged one. -/
def replacement : List Database.ScanItem := [⟨⟨"a", "", "a", ⟨1, 2, 0, 0, 0⟩⟩, false, none⟩]

/-- The tagged file is missing then, and the new one has no tag. -/
theorem scans_keep_identity_replaced :
    ∃ db, (taggingMachine ⟨5, 5, 5⟩).Reachable Database.DistinctPaths db ∧
      db.fileTags.get (1, 1) = some () ∧
      let db' := (db.scanComplete ⟨5, 5, 5⟩ 2 replacement false).2
      (∃ row', db'.files.get 1 = some row' ∧ row'.status = .missing) ∧
      ∃ newId newRow, db'.Live newId newRow ∧ newRow.path = "a" ∧
        ∀ tag, db'.fileTags.get (newId, tag) = none := by
  have hok : ∀ op ∈ replacedFile.take 3, ∀ db, Database.DistinctPaths db op := by
    intro op hop db
    simp only [replacedFile, List.take_succ_cons, List.take_zero, List.mem_cons,
      List.not_mem_nil, or_false] at hop
    obtain rfl | rfl | rfl := hop
    · exact List.nodup_singleton _
    · trivial
    · trivial
  obtain ⟨db, hr, ht⟩ := (taggingMachine ⟨5, 5, 5⟩).exists_reachable_of_run
    (replacedFile.take 3) (fun db => decide (db.fileTags.get (1, 1) = some ()) &&
      decide (db.files.get 1 = some ⟨"a", "", "a", ⟨1, 1, 0, 0, 0⟩, .present, 1⟩) &&
      decide ((db.scanComplete ⟨5, 5, 5⟩ 2 replacement false).1 = .ok ())) hok (by decide)
  rw [Bool.and_eq_true, Bool.and_eq_true, decide_eq_true_iff, decide_eq_true_iff,
    decide_eq_true_iff] at ht
  obtain ⟨⟨htg, hrw⟩, hs⟩ := ht
  have hd := ((scans_keep_identity ⟨5, 5, 5⟩ db hr).2 2 replacement false (by decide)).2.2 hs
  obtain ⟨hm, newId, newRow, -, hl, hp, -, hn⟩ :=
    hd.2.2 1 _ ⟨hrw, rfl⟩ _ List.mem_cons_self rfl (by decide)
  exact ⟨db, hr, htg, hm, newId, newRow, hl, hp, hn⟩

end DufsRam.Tagging
