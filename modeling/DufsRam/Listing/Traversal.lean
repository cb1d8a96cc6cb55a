import DufsRam.Listing.Recorded

/-!
# The invariant of a directory walk

A directory that still has the times of its snapshot has not changed since it was recorded. So every
fact about the traversal is stated under the assumption that all recorded directories have those times,
and it is the last comparison that discharges it.

Results:
* `Inv.next`: every call of the walk keeps the invariant.
* `Inv.changed`: so does a change by others that keeps the path of the walk and the links that are
  shown.
-/

namespace DufsRam.Listing

open RootedFs

/-! ## The invariant -/

/-- The directories on the stack and the finished ones. -/
def Walk.recorded (w : Walk) : Set VisitedDirectory :=
  {v | (∃ f ∈ w.stack, f.toVisitedDirectory = v) ∨ v ∈ w.visited}

/-- How far the directories of the walk are read. -/
structure Progress (c : Config) (w : Walk) : Prop where
  coherent : Coherent c w.fs w.recorded w.items
  rooted : ∃ v ∈ w.recorded, v.path = c.path
  closed : ∀ v ∈ w.visited, ∀ n, ReadTo c w.fs w.recorded w.items v n
  frames : ∀ f ∈ w.stack, ReadTo c w.fs w.recorded w.items f.toVisitedDirectory f.cursor

/-- The entry `e` of the directory on top of the stack is `i`, and the ones before it are handled. -/
structure AtEntry (c : Config) (w : Walk) (f : DirectoryWalkFrame) (e : ReadEntry)
    (i : FileIdentity) : Prop where
  directory : e.directory = f.snapshot.identity
  read : ReadTo c w.fs w.recorded w.items f.toVisitedDirectory e.index
  entry : (w.fs.entries f.snapshot.identity)[e.index]? = some (e.name, i)

/-- What the walk knows between two calls of a chunk. -/
def Position (c : Config) (w : Walk) : Phase → Prop
  | .reading d n => ∃ f rest, w.stack = f :: rest ∧ d = f.snapshot.identity ∧
    ReadTo c w.fs w.recorded w.items f.toVisitedDirectory n
  | .statting e => ∃ f rest i, w.stack = f :: rest ∧ AtEntry c w f e i
  | .resolving e isSymlink => ∃ f rest i, w.stack = f :: rest ∧ AtEntry c w f e i ∧
    isSymlink = w.fs.tree.isSymlink i
  | .resolvingNofollow e => ∃ f rest i, w.stack = f :: rest ∧ AtEntry c w f e i ∧
    w.fs.tree.isSymlink i = true ∧ w.fs.shows f.path e.name i = true
  | .measuring e x isDirectory => ∃ f rest i, w.stack = f :: rest ∧ AtEntry c w f e i ∧
    w.fs.shows f.path e.name i = true ∧ isDirectory = w.fs.tree.isDirectory i ∧
    (isDirectory = true → x = i)
  | _ => True

/-- The phases of the traversal loop. -/
def Phase.traversing : Phase → Bool
  | .top | .before _ _ | .opening | .reading _ _ | .statting _ | .resolving _ _
  | .resolvingNofollow _ | .measuring _ _ _ => true
  | _ => false

/-- The directories that passed the last comparison had their times at the end of the loop. -/
def Checked (w : Walk) (fs : FileSystem) : Phase → Prop
  | .after rest => ∀ v ∈ w.recorded, v ∈ rest ∨ fs.times v.snapshot.identity = v.snapshot.times
  | .afterOpened v rest _ _ => ∀ v' ∈ w.recorded, v' ∈ v :: rest ∨
    fs.times v'.snapshot.identity = v'.snapshot.times
  | .done => Live fs w.recorded
  | _ => False

/-- The walk after the loop, which ended at the file system `fs`. -/
structure Revalidating (c : Config) (w : Walk) (fs : FileSystem) (phase : Phase) : Prop where
  finished : w.finished = some fs
  noSymlinkedDirectories : fs.tree.NoSymlinkedDirectories
  exact : Live fs w.recorded → Exact c fs w.recorded w.items
  kept : ∀ v ∈ w.recorded, w.fs.times v.snapshot.identity = v.snapshot.times →
    fs.times v.snapshot.identity = v.snapshot.times
  checked : Checked w fs phase

/-- Nothing is recorded yet. -/
structure Walk.Empty (w : Walk) : Prop where
  stack : w.stack = []
  visited : w.visited = []
  items : w.items = []

/-- What holds in each phase. In the loop it rests on the times of the recorded directories, since the
    walk fails later if one of them changed. -/
def Stage (c : Config) (w : Walk) : Phase → Prop
  | .start => w.Empty
  | .root i isDirectory => w.Empty ∧ (isDirectory = true → w.fs.directoryAt c.path = some i)
  | .failed => True
  | .after rest => ∃ fs, Revalidating c w fs (.after rest)
  | .afterOpened v rest i isDirectory => ∃ fs, Revalidating c w fs (.afterOpened v rest i isDirectory)
  | .done => ∃ fs, Revalidating c w fs .done
  | phase => Live w.fs w.recorded → Progress c w ∧ Position c w phase

variable {phase : Phase} {path : Path} {v : VisitedDirectory} {i : FileIdentity}
  {isDirectory : Bool} {f : DirectoryWalkFrame} {rest : List DirectoryWalkFrame} {e : ReadEntry}
  {fs : FileSystem}

theorem Stage.of_position {c : Config} {w : Walk} (ht : phase.traversing = true)
    (h : Live w.fs w.recorded → Progress c w ∧ Position c w phase) : Stage c w phase := by
  cases phase <;> first | exact h | cases ht

/-- Every snapshot was taken at some time. -/
def Walk.Seen (w : Walk) : Prop :=
  ∀ v ∈ w.recorded, ∃ old ∈ w.fs :: w.past, old.times v.snapshot.identity = v.snapshot.times

structure Inv (c : Config) (w : Walk) : Prop where
  noSymlinkedDirectories : w.fs.tree.NoSymlinkedDirectories
  seen : w.Seen
  stage : Stage c w w.phase

variable {c : Config} {w w' : Walk}

theorem Inv.at (h : Inv c w) (hp : w.phase = phase) : Stage c w phase :=
  hp ▸ h.stage

/-! ## Steps of the walk -/

/-- A call changes no file, and what it records has the times of now. -/
structure Extends (w w' : Walk) : Prop where
  fs : w'.fs = w.fs
  past : w'.past = w.past
  recorded : ∀ v ∈ w'.recorded, v ∈ w.recorded ∨
    w.fs.times v.snapshot.identity = v.snapshot.times

theorem Extends.goto (w : Walk) (phase : Phase) : Extends w (w.goto phase) :=
  ⟨rfl, rfl, fun _ hv => .inl hv⟩

theorem Inv.extend (h : Inv c w) (he : Extends w w') (hst : Stage c w' w'.phase) : Inv c w' where
  noSymlinkedDirectories := he.fs ▸ h.noSymlinkedDirectories
  seen v hv := by
    rw [he.fs, he.past]
    rcases he.recorded v hv with hold | hn
    · exact h.seen v hold
    · exact ⟨w.fs, List.mem_cons_self, hn⟩
  stage := hst

theorem Inv.goto (h : Inv c w) (hst : Stage c (w.goto phase) phase) : Inv c (w.goto phase) :=
  h.extend (.goto w phase) hst

theorem Inv.fail (h : Inv c w) : Inv c (w.goto .failed) :=
  h.goto trivial

theorem Progress.goto (h : Progress c w) (phase : Phase) : Progress c (w.goto phase) :=
  ⟨h.coherent, h.rooted, h.closed, h.frames⟩

/-- The next call of the loop, which records nothing. -/
theorem Inv.gotoTraversing (h : Inv c w) (ht : phase.traversing = true)
    (hp : Live w.fs w.recorded → Progress c w ∧ Position c (w.goto phase) phase) :
    Inv c (w.goto phase) := by
  refine h.goto (.of_position ht ?_)
  intro hl
  obtain ⟨hprogress, hps⟩ := hp hl
  exact ⟨hprogress.goto phase, hps⟩

theorem Inv.openThen (h : Inv c w) {next : FileIdentity → Bool → Phase}
    (hn : ∀ i, w.fs.tree.openFromRoot path = .ok i →
      Inv c (w.goto (next i (w.fs.tree.isDirectory i)))) : Inv c (w.openThen path next) := by
  unfold Walk.openThen
  split
  · next i ho => exact hn i ho
  · exact h.fail

theorem Inv.checkThen (h : Inv c w) {next : Phase}
    (hn : w.fs.snapshot i = v.snapshot → Inv c (w.goto next)) :
    Inv c (w.checkThen v i isDirectory next) := by
  unfold Walk.checkThen
  split
  · next hc => exact hn hc.2
  · exact h.fail

theorem mem_recorded_top (hst : w.stack = f :: rest) : f.toVisitedDirectory ∈ w.recorded :=
  .inl ⟨f, hst ▸ List.mem_cons_self, rfl⟩

theorem AtEntry.lookup (h : AtEntry c w f e i) :
    w.fs.tree.lookup f.snapshot.identity e.name = some i :=
  mem_entries_iff.mp (List.mem_of_getElem? h.entry)

/-- The descriptor of a chunk is the recorded directory. -/
theorem Inv.opening (h : Inv c w) (hp : w.phase = .opening) (hst : w.stack = f :: rest)
    {d : FileIdentity} (ho : w.fs.tree.openDirectoryFromRoot f.path = .ok d) :
    Inv c (w.goto (.reading d f.cursor)) := by
  refine h.gotoTraversing rfl fun hl => ?_
  obtain ⟨hprogress, -⟩ := h.at hp hl
  have hlc := hprogress.coherent.located _ (mem_recorded_top hst)
  have hds := Tree.descend_of_walk h.noSymlinkedDirectories f.path ho
  have hd : some d = some f.snapshot.identity := hds.symm.trans hlc
  exact ⟨hprogress, f, rest, hst, Option.some.inj hd, hprogress.frames f (hst ▸ List.mem_cons_self)⟩

/-- `read` finishes a directory whose entries are all handled, or reads the next entry. -/
theorem Inv.read (h : Inv c w) {d : FileIdentity} {n : ℕ} (hp : w.phase = .reading d n)
    (hst : w.stack = f :: rest) :
    Inv c (w.read c f rest d n) := by
  have hps := h.at hp
  unfold Walk.read
  split
  · next hen =>
    -- the frame moves from the stack to the finished directories
    generalize hw : { w with
      stack := rest
      visited := w.visited ++ [f.toVisitedDirectory]
      phase := .top : Walk } = w'
    have hr : w'.recorded = w.recorded := by
      subst hw
      ext v
      simp only [Walk.recorded, hst, Set.mem_ofPred_eq, List.mem_cons, List.mem_append,
        List.not_mem_nil, or_false, exists_eq_or_imp]
      constructor
      · rintro (hv | hv | rfl)
        · exact .inl (.inr hv)
        · exact .inr hv
        · exact .inl (.inl rfl)
      · rintro ((rfl | hv) | hv)
        · exact .inr (.inr rfl)
        · exact .inl hv
        · exact .inr (.inl hv)
    have hfs : w'.fs = w.fs := by rw [← hw]
    refine h.extend ⟨hfs, by rw [← hw], fun v hv => .inl (hr ▸ hv)⟩ ?_
    have hp' : w'.phase = .top := by rw [← hw]
    have hi : w'.items = w.items := by rw [← hw]
    rw [hp']
    intro hl
    rw [hfs, hr] at hl
    obtain ⟨hprogress, f', rest', hs', rfl, hrd⟩ := hps hl
    obtain ⟨rfl, rfl⟩ := List.cons.inj (hst.symm.trans hs')
    refine ⟨⟨?_, ?_, ?_, ?_⟩, trivial⟩
    · rw [hfs, hr, hi]
      exact hprogress.coherent
    · rw [hr]
      exact hprogress.rooted
    · rw [hfs, hr, hi, ← hw]
      intro v hv m
      rcases List.mem_append.mp hv with hold | hn
      · exact hprogress.closed v hold m
      · obtain rfl := List.mem_singleton.mp hn
        exact hrd.all hen m
    · rw [hfs, hr, hi, ← hw]
      intro f' hf'
      exact hprogress.frames f' (hst ▸ List.mem_cons_of_mem f hf')
  · next name i he =>
    split
    · exact h.fail
    refine h.extend ⟨rfl, rfl, fun v hv => .inl hv⟩ fun hl => ?_
    obtain ⟨hprogress, f', rest', hs', rfl, hrd⟩ := hps hl
    obtain ⟨rfl, rfl⟩ := List.cons.inj (hst.symm.trans hs')
    exact ⟨⟨hprogress.coherent, hprogress.rooted, hprogress.closed, hprogress.frames⟩,
      f, rest, i, hst, rfl, hrd, he⟩

theorem Inv.stat (h : Inv c w) (hp : w.phase = .statting e) : Inv c (w.stat e) := by
  unfold Walk.stat
  split
  · next i hi =>
    refine h.gotoTraversing rfl fun hl => ?_
    obtain ⟨hprogress, f, rest, i', hst, hat⟩ := h.at hp hl
    rw [hat.directory, hat.lookup] at hi
    cases hi
    exact ⟨hprogress, f, rest, i, hst, ⟨hat.directory, hat.read, hat.entry⟩, rfl⟩
  · exact h.fail

/-- What the path of an entry opens: the entry itself, or for a link anything but a directory. -/
theorem AtEntry.opened {x : FileIdentity} (hat : AtEntry c w f e i) (hst : w.stack = f :: rest)
    (hprogress : Progress c w) (ht : w.fs.tree.NoSymlinkedDirectories)
    (ho : w.fs.tree.openFromRoot (f.path ++ [e.name]) = .ok x) :
    w.fs.tree.isDirectory x = w.fs.tree.isDirectory i ∧ (w.fs.tree.isDirectory x = true → x = i) := by
  have hlc := hprogress.coherent.located _ (mem_recorded_top hst)
  cases hl : w.fs.tree.isSymlink i with
  | false =>
    rw [Tree.openFromRoot_entry hlc hat.lookup hl] at ho
    cases ho
    exact ⟨rfl, fun _ => rfl⟩
  | true =>
    have hx := Tree.openFromRoot_symlink ht hlc hat.lookup hl ho
    have hi : w.fs.tree.isDirectory i = false := by
      by_contra hd
      rw [Bool.not_eq_false] at hd
      rw [isSymlink_of_isDirectory hd] at hl
      cases hl
    rw [hx, hi]
    exact ⟨rfl, fun h => (nomatch h)⟩

theorem Inv.resolve (h : Inv c w) {isSymlink : Bool} (hph : w.phase = .resolving e isSymlink)
    (hst : w.stack = f :: rest) : Inv c (w.resolve f e isSymlink) := by
  have hp := h.at hph
  -- a link that leads nowhere is shown itself
  have hd : ∀ {err}, w.fs.tree.openFromRoot (f.path ++ [e.name]) = .error err →
      (err = .notFound ∨ err = .filesystemLoop) →
      Inv c (w.goto (if isSymlink then .resolvingNofollow e else .failed)) := by
    intro err ho he
    split
    · next hln =>
      refine h.gotoTraversing rfl fun hl => ?_
      obtain ⟨hprogress, f', rest', i, hs', hat, hi⟩ := hp hl
      obtain ⟨rfl, rfl⟩ := List.cons.inj (hst.symm.trans hs')
      have hi' : w.fs.tree.isSymlink i = true := hi.symm.trans hln
      refine ⟨hprogress, f, rest, i, hst, ⟨hat.directory, hat.read, hat.entry⟩, hi', ?_⟩
      rcases he with rfl | rfl
      · simp only [FileSystem.shows, Walk.goto, ho]
        exact hi'
      · simp only [FileSystem.shows, Walk.goto, ho]
        exact hi'
    · exact h.fail
  unfold Walk.resolve
  split
  · next x ho =>
    refine h.gotoTraversing rfl fun hl => ?_
    obtain ⟨hprogress, f', rest', i, hs', hat, -⟩ := hp hl
    obtain ⟨rfl, rfl⟩ := List.cons.inj (hst.symm.trans hs')
    obtain ⟨hdr, hx⟩ := hat.opened hst hprogress h.noSymlinkedDirectories ho
    refine ⟨hprogress, f, rest, i, hst, ⟨hat.directory, hat.read, hat.entry⟩, ?_, hdr, hx⟩
    simp [FileSystem.shows, Walk.goto, ho]
  · next ho =>
    refine h.gotoTraversing rfl fun hl => ?_
    obtain ⟨hprogress, f', rest', i, hs', hat, -⟩ := hp hl
    obtain ⟨rfl, rfl⟩ := List.cons.inj (hst.symm.trans hs')
    refine ⟨hprogress, f, rest, hst, hat.directory, hat.read.succ hat.entry ?_⟩
    intro hsh
    simp only [FileSystem.shows, ho] at hsh
    cases hsh
  · next ho => exact hd ho (.inl rfl)
  · next ho => exact hd ho (.inr rfl)
  · exact h.fail

theorem Inv.resolveNofollow (h : Inv c w) (hp : w.phase = .resolvingNofollow e)
    (hst : w.stack = f :: rest) :
    Inv c (w.resolveNofollow f e) := by
  unfold Walk.resolveNofollow
  split
  · next x ho =>
    refine h.gotoTraversing rfl fun hl => ?_
    obtain ⟨hprogress, f', rest', i, hs', hat, hln, hsh⟩ := h.at hp hl
    obtain ⟨rfl, rfl⟩ := List.cons.inj (hst.symm.trans hs')
    have hx : x = i := by
      unfold Tree.openNofollow at ho
      split at ho
      · cases ho
      next d hd =>
      have hlc := hprogress.coherent.located _ (mem_recorded_top hst)
      have hds := Tree.descend_of_walk h.noSymlinkedDirectories f.path hd
      obtain rfl : d = f.snapshot.identity := Option.some.inj (hds.symm.trans hlc)
      rw [hat.lookup] at ho
      exact (Except.ok.inj ho).symm
    subst hx
    exact ⟨hprogress, f, rest, x, hst, ⟨hat.directory, hat.read, hat.entry⟩, hsh, rfl, fun _ => rfl⟩
  · exact h.fail

/-! ## Items and directories -/

theorem recorded_push (w : Walk) (f : DirectoryWalkFrame) :
    (w.push f).recorded = insert f.toVisitedDirectory w.recorded := by
  ext v
  simp only [Walk.recorded, Walk.push, Set.mem_ofPred_eq, Set.mem_insert_iff, List.mem_cons,
    exists_eq_or_imp, or_assoc]
  rw [eq_comm]

/-- A directory is recorded, unless a limit is reached. -/
theorem Inv.pushDirectory (h : Inv c w) {w₁ : Walk} (he : Extends w w₁) {depth : ℕ}
    (hp : Live w₁.fs w₁.recorded → Progress c (w₁.push ⟨⟨path, w₁.fs.snapshot i⟩, 0, depth⟩)) :
    Inv c (w₁.pushDirectory c path i depth) := by
  unfold Walk.pushDirectory
  split
  · exact h.extend ⟨he.fs, he.past, he.recorded⟩ trivial
  refine h.extend ⟨he.fs, he.past, fun v hv => ?_⟩ fun hl => ⟨hp ?_, trivial⟩
  · rw [recorded_push] at hv
    rcases Set.mem_insert_iff.mp hv with rfl | hold
    · right
      rw [← he.fs]
      rfl
    · exact he.recorded v hold
  · intro v hv
    refine hl v ?_
    rw [recorded_push]
    exact .inr hv

/-- The first directory. -/
theorem Progress.first (he : w.Empty) (hat : w.fs.directoryAt c.path = some i) :
    Progress c (w.push ⟨⟨c.path, w.fs.snapshot i⟩, 0, 0⟩) := by
  have hn : w.recorded = ∅ := by
    simp [Walk.recorded, he.stack, he.visited]
  have hr := recorded_push w ⟨⟨c.path, w.fs.snapshot i⟩, 0, 0⟩
  rw [hn] at hr
  have ho : ∀ v ∈ (w.push ⟨⟨c.path, w.fs.snapshot i⟩, 0, 0⟩).recorded,
      v = ⟨c.path, w.fs.snapshot i⟩ := by
    intro v hv
    rw [hr] at hv
    simpa using hv
  refine ⟨⟨?_, ?_, ?_⟩, ?_, ?_, ?_⟩
  · intro v hv
    rw [ho v hv]
    exact hat
  · intro v hv
    rw [ho v hv]
    exact .inl rfl
  · intro q hq
    have hi : q ∈ w.items := hq
    rw [he.items] at hi
    cases hi
  · refine ⟨⟨c.path, w.fs.snapshot i⟩, ?_, rfl⟩
    rw [hr]
    exact .inl rfl
  · intro v hv
    have hvs : v ∈ w.visited := hv
    rw [he.visited] at hvs
    cases hvs
  · intro f hf
    have hst : f ∈ _ :: w.stack := hf
    rw [he.stack, List.mem_singleton] at hst
    subst hst
    intro k hk
    exact absurd hk (Nat.not_lt_zero k)

theorem items_subset_collect (w : Walk) (path : Path) : w.items ⊆ (w.collect c path).items := by
  intro q hq
  unfold Walk.collect
  split
  · exact List.mem_append_left _ hq
  · exact hq

theorem mem_items_collect (w : Walk) (h : c.includes path = true) :
    path ∈ (w.collect c path).items := by
  simp only [Walk.collect, h, if_true]
  exact List.mem_append_right _ (List.mem_singleton_self path)

/-- A shown entry becomes an item. -/
theorem Progress.collect (h : Progress c w) (hst : w.stack = f :: rest) (hat : AtEntry c w f e i)
    (hsh : w.fs.shows f.path e.name i = true) (hvs : c.hidden (f.path ++ [e.name]) = false) :
    Progress c (w.collect c (f.path ++ [e.name])) := by
  have hi := items_subset_collect (c := c) w (f.path ++ [e.name])
  refine ⟨?_, h.rooted, fun v hv n => (h.closed v hv n).mono subset_rfl hi,
    fun f' hf' => (h.frames f' hf').mono subset_rfl hi⟩
  unfold Walk.collect
  split
  · next hin =>
    exact h.coherent.addItem (mem_recorded_top hst) ⟨rfl, hat.lookup, hsh, hvs, hin⟩
  · exact h.coherent

/-- The descent into a directory. The entries of the parent are handled up to it. -/
theorem Progress.descend (h : Progress c w) {depth : ℕ} (hst : w.stack = f :: rest)
    (hat : AtEntry c w f e i) (hd : w.fs.tree.isDirectory i = true)
    (hvs : c.hidden (f.path ++ [e.name]) = false)
    (hi : c.includes (f.path ++ [e.name]) = true → f.path ++ [e.name] ∈ w.items) :
    Progress c ({ w with stack := { f with cursor := e.index + 1 } :: rest }.push
      ⟨⟨f.path ++ [e.name], w.fs.snapshot i⟩, 0, depth⟩) := by
  generalize hc : (⟨f.path ++ [e.name], w.fs.snapshot i⟩ : VisitedDirectory) = child
  have hpr : ({ w with stack := { f with cursor := e.index + 1 } :: rest } : Walk).recorded =
      w.recorded := by
    simp [Walk.recorded, hst]
  have hr := recorded_push { w with stack := { f with cursor := e.index + 1 } :: rest }
    ⟨child, 0, depth⟩
  rw [hpr] at hr
  have hm : w.recorded ⊆ insert child w.recorded := Set.subset_insert _ _
  have hch : Coherent c w.fs (insert child w.recorded) w.items := by
    have he : ChildOf c w.fs child f.toVisitedDirectory e.name := by
      subst hc
      exact ⟨rfl, hat.lookup, hd, hvs⟩
    exact h.coherent.addChild (mem_recorded_top hst) he
  have hh : Handled c w.fs (insert child w.recorded) w.items f.path e.name i := by
    intro _ _
    refine ⟨hi, fun _ => ⟨child, .inl rfl, ?_⟩⟩
    subst hc
    exact ⟨rfl, rfl⟩
  refine ⟨hr ▸ hch, ?_, ?_, ?_⟩
  · obtain ⟨v, hv, hp⟩ := h.rooted
    exact ⟨v, hr ▸ hm hv, hp⟩
  · intro v hv n
    rw [hr]
    exact (h.closed v hv n).mono hm (List.Subset.refl _)
  intro f' hf'
  rw [hr]
  rcases List.mem_cons.mp hf' with rfl | hrs
  · intro k hk
    exact absurd hk (Nat.not_lt_zero k)
  · rcases List.mem_cons.mp hrs with rfl | hold
    · exact (hat.read.mono hm (List.Subset.refl _)).succ hat.entry hh
    · exact (h.frames f' (hst ▸ List.mem_cons_of_mem f hold)).mono hm (List.Subset.refl _)

theorem AtEntry.collect (h : AtEntry c w f e i) : AtEntry c (w.collect c path) f e i :=
  ⟨h.directory, h.read.mono subset_rfl (items_subset_collect w path), h.entry⟩

theorem Inv.visit (h : Inv c w) {x : FileIdentity} (hph : w.phase = .measuring e x isDirectory)
    (hst : w.stack = f :: rest) :
    Inv c (w.visit c f rest e x isDirectory) := by
  have hp := h.at hph
  simp only [Walk.visit]
  split_ifs with hh hdr
  · refine h.gotoTraversing rfl fun hl => ?_
    obtain ⟨hprogress, f', rest', i, hs', hat, -⟩ := hp hl
    obtain ⟨rfl, rfl⟩ := List.cons.inj (hst.symm.trans hs')
    refine ⟨hprogress, f, rest, hst, hat.directory, hat.read.succ hat.entry ?_⟩
    intro _ hvs
    rw [hh] at hvs
    cases hvs
  · have hvs : c.hidden (f.path ++ [e.name]) = false := Bool.not_eq_true _ ▸ hh
    have hr : ({ w.collect c (f.path ++ [e.name]) with
        stack := { f with cursor := e.index + 1 } :: rest } : Walk).recorded = w.recorded := by
      simp [Walk.recorded, Walk.collect, hst]
    have he : Extends w { w.collect c (f.path ++ [e.name]) with
        stack := { f with cursor := e.index + 1 } :: rest } :=
      ⟨rfl, rfl, fun v hv => .inl (hr ▸ hv)⟩
    refine h.pushDirectory he fun hl => ?_
    rw [hr] at hl
    obtain ⟨hprogress, f', rest', i, hs', hat, hsh, hi, hx⟩ := hp hl
    obtain ⟨rfl, rfl⟩ := List.cons.inj (hst.symm.trans hs')
    obtain rfl := hx hdr
    exact (hprogress.collect hst hat hsh hvs).descend hst hat.collect
      (hi.symm.trans hdr) hvs (mem_items_collect w)
  · have hvs : c.hidden (f.path ++ [e.name]) = false := Bool.not_eq_true _ ▸ hh
    refine h.extend ⟨rfl, rfl, fun v hv => .inl hv⟩ fun hl => ?_
    obtain ⟨hprogress, f', rest', i, hs', hat, hsh, hi, -⟩ := hp hl
    obtain ⟨rfl, rfl⟩ := List.cons.inj (hst.symm.trans hs')
    refine ⟨(hprogress.collect hst hat hsh hvs).goto _, f, rest, hst, hat.directory,
      hat.collect.read.succ hat.entry ?_⟩
    intro _ _
    exact ⟨mem_items_collect w, fun hd => absurd (hi.trans hd) hdr⟩

/-! ## The end of the loop and the last comparison -/

theorem Inv.endLoop (h : Inv c w) (hp : w.phase = .top) (hst : w.stack = []) : Inv c { w with
      finished := some w.fs
      phase := .after w.visited } := by
  refine h.extend ⟨rfl, rfl, fun v hv => .inl hv⟩ ⟨w.fs, rfl, h.noSymlinkedDirectories, ?_, ?_, ?_⟩
  · intro hl
    obtain ⟨hprogress, -⟩ := h.at hp hl
    refine ⟨hprogress.coherent, hprogress.rooted, ?_⟩
    rintro v (⟨f, hf, -⟩ | hv)
    · have hf' : f ∈ w.stack := hf
      rw [hst] at hf'
      cases hf'
    · exact hprogress.closed v hv
  · exact fun v _ ht => ht
  · rintro v (⟨f, hf, -⟩ | hv)
    · have hf' : f ∈ w.stack := hf
      rw [hst] at hf'
      cases hf'
    · exact .inl hv

theorem Revalidating.goto {phase' : Phase} (h : Revalidating c w fs phase)
    (hc : Checked w fs phase') :
    Revalidating c (w.goto phase') fs phase' := by
  refine ⟨h.finished, h.noSymlinkedDirectories, h.exact, h.kept, ?_⟩
  cases phase' <;> exact hc

theorem Inv.done (h : Inv c w) (hp : w.phase = .after []) : Inv c (w.goto .done) := by
  obtain ⟨fs, hfs⟩ := h.at hp
  refine h.goto ⟨fs, hfs.goto fun v hv => ?_⟩
  rcases hfs.checked v hv with hm | ht
  · cases hm
  · exact ht

theorem Inv.afterOpened (h : Inv c w) {rest : List VisitedDirectory}
    (hp : w.phase = .after (v :: rest)) (i : FileIdentity) (isDirectory : Bool) :
    Inv c (w.goto (.afterOpened v rest i isDirectory)) := by
  obtain ⟨fs, hfs⟩ := h.at hp
  exact h.goto ⟨fs, hfs.goto hfs.checked⟩

theorem Inv.afterChecked (h : Inv c w) {rest : List VisitedDirectory}
    (hp : w.phase = .afterOpened v rest i isDirectory)
    (hsn : w.fs.snapshot i = v.snapshot) : Inv c (w.goto (.after rest)) := by
  obtain ⟨fs, hfs⟩ := h.at hp
  refine h.goto ⟨fs, hfs.goto fun v' hv' => ?_⟩
  rcases hfs.checked v' hv' with hm | ht
  · rcases List.mem_cons.mp hm with rfl | hr
    · refine .inr (hfs.kept v' hv' ?_)
      rw [← hsn]
      rfl
    · exact .inl hr
  · exact .inr ht

/-- Every call of the walk keeps the invariant. -/
theorem Inv.next (h : Inv c w) (hn : w.next c = some w') : Inv c w' := by
  unfold Walk.next at hn
  split at hn
  · have hp := ‹w.phase = _›
    cases hn
    refine h.openThen fun i ho => h.goto ⟨?_, fun hd => ?_⟩
    · obtain ⟨hst, hvs, hi⟩ := h.at hp
      exact ⟨hst, hvs, hi⟩
    · exact Tree.openFromRoot_directory h.noSymlinkedDirectories ho hd
  · have hp := ‹w.phase = _›
    cases hn
    obtain ⟨he, hat⟩ := h.at hp
    split
    · next hd =>
      exact h.pushDirectory ⟨rfl, rfl, fun v hv => .inl hv⟩ fun _ => .first he (hat hd)
    · exact h.fail
  · have hp := ‹w.phase = _›
    cases hn
    exact h.endLoop hp ‹w.stack = []›
  · have hp := ‹w.phase = _›
    cases hn
    exact h.openThen fun i _ => h.gotoTraversing rfl fun hl =>
      ⟨(h.at hp hl).1, trivial⟩
  · have hp := ‹w.phase = _›
    cases hn
    exact h.checkThen fun _ => h.gotoTraversing rfl fun hl => ⟨(h.at hp hl).1, trivial⟩
  · have hp := ‹w.phase = _›
    split at hn
    · next ho =>
      cases hn
      exact h.opening hp ‹w.stack = _› ho
    · cases hn
      exact h.fail
  · have hp := ‹w.phase = _›
    cases hn
    exact h.read hp ‹w.stack = _›
  · have hp := ‹w.phase = _›
    cases hn
    exact h.stat hp
  · have hp := ‹w.phase = _›
    cases hn
    exact h.resolve hp ‹w.stack = _›
  · have hp := ‹w.phase = _›
    cases hn
    exact h.resolveNofollow hp ‹w.stack = _›
  · have hp := ‹w.phase = _›
    cases hn
    exact h.visit hp ‹w.stack = _›
  · have hp := ‹w.phase = _›
    cases hn
    exact h.done hp
  · have hp := ‹w.phase = _›
    cases hn
    exact h.openThen fun i _ => h.afterOpened hp i _
  · have hp := ‹w.phase = _›
    cases hn
    exact h.checkThen fun hsn => h.afterChecked hp hsn
  · cases hn

/-! ## Changes by others -/

/-- The state after a change. -/
def Walk.changed (w : Walk) (fs : FileSystem) : Walk :=
  { w with
    fs := fs
    past := w.fs :: w.past }

/-- A recorded directory that has the times of its snapshot did not change just now. -/
theorem Inv.unchanged (h : Inv c w) (hc : Change w.past w.fs fs) (hv : v ∈ w.recorded)
    (ht : fs.times v.snapshot.identity = v.snapshot.times) :
    fs.entries v.snapshot.identity = w.fs.entries v.snapshot.identity ∧
      w.fs.times v.snapshot.identity = v.snapshot.times := by
  obtain ⟨old, hold, hsn⟩ := h.seen v hv
  obtain ⟨he, hsm⟩ := hc.unchanged hold (ht.trans hsn.symm)
  exact ⟨he, hsm.symm.trans ht⟩

section Changed

variable {fs : FileSystem} (hs : Stable c w.past w.fs fs w.recorded) (hprogress : Progress c w)
include hs hprogress

theorem Progress.changed : Progress c (w.changed fs) where
  coherent := hs.coherent hprogress.coherent
  rooted := hprogress.rooted
  closed v hv n := hs.readTo hprogress.coherent (.inr hv) (hprogress.closed v hv n)
  frames f hf := hs.readTo hprogress.coherent (.inl ⟨f, hf, rfl⟩) (hprogress.frames f hf)

theorem AtEntry.changed {f : DirectoryWalkFrame} {rest : List DirectoryWalkFrame} {e : ReadEntry}
    {i : FileIdentity} (hst : w.stack = f :: rest) (h : AtEntry c w f e i) :
    AtEntry c (w.changed fs) f e i where
  directory := h.directory
  read := hs.readTo hprogress.coherent (mem_recorded_top hst) h.read
  entry := by
    show (fs.entries f.snapshot.identity)[e.index]? = some (e.name, i)
    rw [hs.entries _ (mem_recorded_top hst)]
    exact h.entry

theorem Position.changed {phase : Phase} (h : Position c w phase) :
    Position c (w.changed fs) phase := by
  cases phase with
  | reading d n =>
    obtain ⟨f, rest, hst, hd, hr⟩ := h
    exact ⟨f, rest, hst, hd, hs.readTo hprogress.coherent (mem_recorded_top hst) hr⟩
  | statting e =>
    obtain ⟨f, rest, i, hst, hat⟩ := h
    exact ⟨f, rest, i, hst, hat.changed hs hprogress hst⟩
  | resolving e isSymlink =>
    obtain ⟨f, rest, i, hst, hat, hl⟩ := h
    refine ⟨f, rest, i, hst, hat.changed hs hprogress hst, hl.trans ?_⟩
    exact (hs.isSymlink (mem_recorded_top hst) hat.lookup).symm
  | resolvingNofollow e =>
    obtain ⟨f, rest, i, hst, hat, hl, hsh⟩ := h
    have ht := mem_recorded_top hst
    exact ⟨f, rest, i, hst, hat.changed hs hprogress hst, (hs.isSymlink ht hat.lookup).trans hl,
      (hs.shows hprogress.coherent ht hat.lookup).trans hsh⟩
  | measuring e x isDirectory =>
    obtain ⟨f, rest, i, hst, hat, hsh, hdr, hx⟩ := h
    have ht := mem_recorded_top hst
    exact ⟨f, rest, i, hst, hat.changed hs hprogress hst,
      (hs.shows hprogress.coherent ht hat.lookup).trans hsh,
      hdr.trans (hs.isDirectory ht hat.lookup).symm, hx⟩
  | _ => trivial

end Changed

theorem Revalidating.changed (h : Inv c w) {fs₁ : FileSystem} (hc : Change w.past w.fs fs)
    (hfs : Revalidating c w fs₁ phase) :
    Revalidating c (w.changed fs) fs₁ phase := by
  refine ⟨hfs.finished, hfs.noSymlinkedDirectories, hfs.exact, ?_, ?_⟩
  · intro v hv ht
    exact hfs.kept v hv (h.unchanged hc hv ht).2
  · have hch := hfs.checked
    cases phase <;> exact hch

theorem Inv.changed (h : Inv c w) (hc : Change w.past w.fs fs)
    (hr : fs.directoryAt c.path = w.fs.directoryAt c.path) (hl : LinksKept w.fs fs) :
    Inv c (w.changed fs) := by
  refine ⟨hc.noSymlinkedDirectories, ?_, ?_⟩
  · intro v hv
    obtain ⟨old, hold, hsn⟩ := h.seen v hv
    exact ⟨old, List.mem_cons_of_mem _ hold, hsn⟩
  -- if the recorded directories have their times now, they did not change
  have hlp : ∀ {phase}, (Live w.fs w.recorded → Progress c w ∧ Position c w phase) →
      Live fs w.recorded → Progress c (w.changed fs) ∧ Position c (w.changed fs) phase := by
    intro phase hp hlv
    have hu := fun v hv => h.unchanged hc hv (hlv v hv)
    have hs : Stable c w.past w.fs fs w.recorded :=
      ⟨hc, hr, hl, fun v hv => (hu v hv).1⟩
    obtain ⟨hprogress, hps⟩ := hp fun v hv => (hu v hv).2
    exact ⟨hprogress.changed hs, hps.changed hs hprogress⟩
  have hst := h.stage
  show Stage c (w.changed fs) w.phase
  generalize w.phase = phase at hst
  cases phase with
  | start => exact ⟨hst.stack, hst.visited, hst.items⟩
  | root i isDirectory =>
    obtain ⟨he, hat⟩ := hst
    exact ⟨⟨he.stack, he.visited, he.items⟩, fun hd => hr.trans (hat hd)⟩
  | failed => trivial
  | after | afterOpened | done =>
    obtain ⟨fs₁, hfs⟩ := hst
    exact ⟨fs₁, hfs.changed h hc⟩
  | _ => exact hlp hst

end DufsRam.Listing
