import DufsRam.Listing.Traversal
import DufsRam.RootedFs.Mutation

/-!
# What a successful walk returns

The walk compares every directory with its snapshot before a chunk and once more after the loop. A
directory that passes the last comparison had its snapshot's times since it was recorded, so its
entries never changed in between, and what was read of it is what it held at the end of the loop.

The comparisons look at the directories of the walk, and every call looks its path up from the root
again. The directories above the walk are not compared, and neither is a descriptor after it was
opened.

Results:
* `items_at_loop_end`: the items of a successful walk are those of the tree at the end of the loop, if
  the path of the walk leads to one directory all the time and the links that are shown stay so.
* `items_of_other_directory`: they are not, if the path leads elsewhere while a chunk is opened.
-/

namespace DufsRam.Listing

open RootedFs

variable {c : Config} {w w' : Walk}

/-! ## Whole walks -/

/-- The changes under which a walk is right. -/
def Undisturbed (c : Config) (w : Walk) (e : Event) : Prop :=
  Allowed w e ∧ KeepsWalkRoot c w e ∧ KeepsLinks w e

theorem inv_of_reachable {fs : FileSystem} (hfs : fs.tree.NoSymlinkedDirectories)
    (h : (walkMachine c fs).Reachable (Undisturbed c) w) : Inv c w := by
  have hi : Inv c (walkMachine c fs).init := by
    refine ⟨hfs, ?_, ⟨rfl, rfl, rfl⟩⟩
    rintro v (⟨f, hf, -⟩ | hv)
    · cases hf
    · cases hv
  refine h.invariant hi ?_
  intro w e w' _ ih hok hs
  cases e with
  | change fs' =>
    cases hs
    exact ih.changed (hok.1 fs' rfl) (hok.2.1 fs' rfl) (hok.2.2 fs' rfl)
  | abort =>
    cases hs
    exact ih.fail
  | next => exact ih.next hs

/-- A call changes no file. Only the end of the loop sets the tree it ended at. -/
theorem next_finished (h : w.next c = some w') :
    w'.fs = w.fs ∧ (w'.finished = w.finished ∨ w'.finished = some w.fs) := by
  grind [Walk.next, Walk.openThen, Walk.checkThen, Walk.read, Walk.stat, Walk.resolve,
    Walk.resolveNofollow, Walk.visit, Walk.collect, Walk.pushDirectory, Walk.push, Walk.goto]

/-- Nothing changes. -/
def Quiet (_ : Walk) (e : Event) : Prop := ∀ fs, e ≠ .change fs

/-- A walk of an unchanging tree ends its loop at that tree. -/
theorem finished_of_quiet {fs : FileSystem} (h : (walkMachine c fs).Reachable Quiet w) :
    w.fs = fs ∧ ∀ fs₁, w.finished = some fs₁ → fs₁ = fs := by
  refine h.invariant (I := fun w => w.fs = fs ∧ ∀ fs₁, w.finished = some fs₁ → fs₁ = fs)
    ⟨rfl, by intro fs₁ h₁; cases h₁⟩ ?_
  intro w e w' _ ih hok hs
  cases e with
  | change fs' => exact absurd rfl (hok fs')
  | abort =>
    cases hs
    exact ih
  | next =>
    obtain ⟨hfs, hf⟩ := next_finished hs
    refine ⟨hfs.trans ih.1, fun fs₁ h₁ => ?_⟩
    rcases hf with hold | hn
    · exact ih.2 fs₁ (hold ▸ h₁)
    · rw [hn] at h₁
      exact (Option.some.inj h₁).symm.trans ih.1

theorem mem_items_of_done {fs : FileSystem} (hfs : fs.tree.NoSymlinkedDirectories)
    (h : (walkMachine c fs).Reachable (Undisturbed c) w) (hd : w.phase = .done) :
    ∃ fs₁ d, w.finished = some fs₁ ∧ fs₁.tree.NoSymlinkedDirectories ∧
      fs₁.directoryAt c.path = some d ∧ ∀ q, q ∈ w.items ↔ Lists c fs₁ d c.path q := by
  obtain ⟨fs₁, hfs₁⟩ := (inv_of_reachable hfs h).at hd
  have he := hfs₁.exact hfs₁.checked
  obtain ⟨v, hv, hp⟩ := he.rooted
  have hl := he.coherent.located v hv
  rw [hp] at hl
  exact ⟨fs₁, v.snapshot.identity, hfs₁.finished, hfs₁.noSymlinkedDirectories, hl,
    he.mem_items_iff hl⟩

/-! ## Two directories with one name below them -/

/-- A tree without symbolic links. -/
theorem isSymlink_eq_false {t : Tree} (h : (t.nodes.rows.all fun row => match row.2 with
      | .symlink _ _ => false
      | _ => true) = true) (i : FileIdentity) : t.isSymlink i = false := by
  unfold Tree.isSymlink Tree.kindOf
  cases hg : t.nodes.get i with
  | none => rfl
  | some node =>
    have hr := List.all_eq_true.mp h _ (Table.get_eq_some_iff.mp hg)
    cases node with
    | symlink abs tgt => cases hr
    | file => rfl
    | directory p es => rfl

theorem noSymlinkedDirectories_of_isSymlink {t : Tree} (h : ∀ i, t.isSymlink i = false) :
    t.NoSymlinkedDirectories := by
  intro d name i tgt n x _ hk
  have hi := h i
  rw [Tree.isSymlink, hk] at hi
  cases hi

/-- `a/b/x` and `c/b/y`, below the root. -/
def exchangeNodes : Table FileIdentity Node :=
  .put (.put (.put (.put (.put (.put .empty
    ⟨1, 2⟩ (.directory ⟨1, 1⟩ (.put .empty "b" ⟨1, 4⟩)))
    ⟨1, 3⟩ (.directory ⟨1, 1⟩ (.put .empty "b" ⟨1, 5⟩)))
    ⟨1, 4⟩ (.directory ⟨1, 2⟩ (.put .empty "x" ⟨1, 6⟩)))
    ⟨1, 5⟩ (.directory ⟨1, 3⟩ (.put .empty "y" ⟨1, 7⟩)))
    ⟨1, 6⟩ .file)
    ⟨1, 7⟩ .file

/-- The entries of the root, and the same with `a` and `c` exchanged. -/
def exchangeRoot (exchanged : Bool) : Table String FileIdentity :=
  if exchanged then .put (.put .empty "a" ⟨1, 3⟩) "c" ⟨1, 2⟩
  else .put (.put .empty "a" ⟨1, 2⟩) "c" ⟨1, 3⟩

def exchangeTree (exchanged : Bool) : Tree :=
  Tree.ofNodes ⟨1, 1⟩ (exchangeNodes.put ⟨1, 1⟩ (.directory ⟨1, 1⟩ (exchangeRoot exchanged)))
    (by cases exchanged <;> decide)

/-- Only the root gets new times. -/
def exchangeFs (exchanged : Bool) (time : ℤ) : FileSystem where
  tree := exchangeTree exchanged
  times d := if d = ⟨1, 1⟩ then ⟨(time, 0), (time, 0)⟩ else ⟨(0, 0), (0, 0)⟩

theorem exchange_isSymlink (exch : Bool) (i : FileIdentity) :
    (exchangeTree exch).isSymlink i = false := by
  refine isSymlink_eq_false ?_ i
  cases exch <;> decide

theorem exchange_get (exch : Bool) {d : FileIdentity} (hd : d ≠ ⟨1, 1⟩) :
    (exchangeTree exch).nodes.get d = exchangeNodes.get d := by
  show (exchangeNodes.put _ _).get d = _
  rw [Table.get_put, if_neg hd]

theorem exchange_kindOf (exch exch' : Bool) (i : FileIdentity) :
    (exchangeTree exch').kindOf i = (exchangeTree exch).kindOf i := by
  by_cases hi : i = ⟨1, 1⟩
  · subst hi
    cases exch <;> cases exch' <;> decide
  · rw [Tree.kindOf, Tree.kindOf, exchange_get _ hi, exchange_get _ hi]

/-- An exchange is a change of the root, which gets a new time. -/
theorem exchange_change {exch exch' : Bool} {time time' : ℤ} {past : List FileSystem}
    (hf : ∀ old ∈ exchangeFs exch time :: past,
      (⟨(time', 0), (time', 0)⟩ : Times) ≠ old.times ⟨1, 1⟩) :
    Change past (exchangeFs exch time) (exchangeFs exch' time') where
  root := rfl
  noSymlinkedDirectories := noSymlinkedDirectories_of_isSymlink (exchange_isSymlink exch')
  kinds _ _ i _ _ := exchange_kindOf exch exch' i
  times d := by
    by_cases hd : d = ⟨1, 1⟩
    · right
      intro old hold
      rw [hd]
      exact hf old hold
    · left
      constructor
      · simp [FileSystem.entries, exchangeFs, exchange_get _ hd]
      · simp [exchangeFs, if_neg hd]

/-- A walk of `a/b` that includes every entry. -/
def exchangeConfig : Config where
  path := ["a", "b"]
  hidden _ := false
  includes _ := true
  maxEntries := 10
  maxDepth := 10

theorem allowed_next (w : Walk) : Allowed w .next := fun _ h => nomatch h

theorem reachable_nexts {fs : FileSystem} {ok : Walk → Event → Prop} (hok : ∀ w, ok w .next) (n : ℕ)
    (h : (walkMachine c fs).Reachable ok w)
    (hr : (walkMachine c fs).runFrom w (List.replicate n .next) = some w') :
    (walkMachine c fs).Reachable ok w' := by
  refine h.runFrom (fun e he w => ?_) hr
  rw [List.eq_of_mem_replicate he]
  exact hok w

/-- The directory `a/b` as the walk records it. -/
def exchangeVisited : VisitedDirectory := ⟨["a", "b"], ⟨⟨1, 4⟩, ⟨(0, 0), (0, 0)⟩⟩⟩

/-- The comparison before the chunk has passed. -/
def exchangeOpening : Walk :=
  ⟨exchangeFs false 0, [], [⟨exchangeVisited, 0, 0⟩], [], 0, [], .opening, none⟩

/-! ## The result -/

/-- A successful walk returns what is listed at the end of its loop, which is what every successful walk
    of that tree returns when nothing changes. -/
theorem items_at_loop_end (c : Config) (fs : FileSystem) (hfs : fs.tree.NoSymlinkedDirectories)
    (w : Walk) (h : (walkMachine c fs).Reachable (Undisturbed c) w) (hdone : w.phase = .done) :
    ∃ fs₁ d, w.finished = some fs₁ ∧ fs₁.directoryAt c.path = some d ∧
      (∀ q, q ∈ w.items ↔ Lists c fs₁ d c.path q) ∧
      ∀ w', (walkMachine c fs₁).Reachable Quiet w' → w'.phase = .done →
        ∀ q, q ∈ w.items ↔ q ∈ w'.items := by
  obtain ⟨fs₁, d, hf, hs, hd, hi⟩ := mem_items_of_done hfs h hdone
  refine ⟨fs₁, d, hf, hd, hi, fun w' hw' hdn' q => ?_⟩
  have hq : (walkMachine c fs₁).Reachable (Undisturbed c) w' :=
    hw'.mono fun _ _ hok => ⟨fun fs he => absurd he (hok fs), fun fs he => absurd he (hok fs),
      fun fs he => absurd he (hok fs)⟩
  obtain ⟨fs₂, d', hf', -, hd', hi'⟩ := mem_items_of_done hs hq hdn'
  obtain rfl := (finished_of_quiet hw').2 fs₂ hf'
  obtain rfl : d = d' := Option.some.inj (hd.symm.trans hd')
  rw [hi, hi']

/-- A walk of `a/b` during which the root is touched. -/
theorem items_at_loop_end_touched :
    ∃ w, (walkMachine exchangeConfig (exchangeFs false 0)).Reachable (Undisturbed exchangeConfig) w ∧
      w.phase = .done ∧ w.items = [["a", "b", "x"]] ∧
      ∃ fs₁ d, w.finished = some fs₁ ∧ fs₁.directoryAt exchangeConfig.path = some d ∧
        (∀ q, q ∈ w.items ↔ Lists exchangeConfig fs₁ d exchangeConfig.path q) ∧
        ∀ w', (walkMachine exchangeConfig fs₁).Reachable Quiet w' → w'.phase = .done →
          ∀ q, q ∈ w.items ↔ q ∈ w'.items := by
  have hn : ∀ w, Undisturbed exchangeConfig w .next :=
    fun w => ⟨allowed_next w, fun _ h => (nomatch h), fun _ h => (nomatch h)⟩
  have ho : (walkMachine exchangeConfig (exchangeFs false 0)).Reachable
      (Undisturbed exchangeConfig) exchangeOpening :=
    reachable_nexts hn 4 .init rfl
  have ht : Undisturbed exchangeConfig exchangeOpening (.change (exchangeFs false 1)) := by
    refine ⟨?_, ?_, ?_⟩
    · rintro fs ⟨⟩
      refine exchange_change ?_
      intro old hold
      obtain rfl := List.mem_singleton.mp hold
      decide
    · rintro fs ⟨⟩
      decide
    · rintro fs ⟨⟩ _ _ _ i _ _ _ _ hl
      have hi := exchange_isSymlink false i
      exact absurd (hi.symm.trans hl) Bool.false_ne_true
  have hd : (walkMachine exchangeConfig (exchangeFs false 0)).Reachable
      (Undisturbed exchangeConfig) ⟨exchangeFs false 1, [exchangeFs false 0], [], [exchangeVisited], 1,
        [["a", "b", "x"]], .done, some (exchangeFs false 1)⟩ :=
    reachable_nexts hn 10 (ho.step ht rfl) rfl
  exact ⟨_, hd, rfl, rfl, items_at_loop_end exchangeConfig (exchangeFs false 0)
    (noSymlinkedDirectories_of_isSymlink (exchange_isSymlink false)) _ hd rfl⟩

/-! ## An exchange above the walk -/

/-- The chunk was read while `a` and `c` were exchanged. -/
def exchangeRead : Walk :=
  ⟨exchangeFs true 1, [exchangeFs false 0], [], [exchangeVisited], 1, [["a", "b", "y"]], .top, none⟩

/-- They were exchanged back before the last comparison. -/
def exchangeDone : Walk :=
  ⟨exchangeFs false 2, [exchangeFs true 1, exchangeFs false 0], [], [exchangeVisited], 1,
    [["a", "b", "y"]], .done, some (exchangeFs false 2)⟩

theorem exchangeDone_reachable :
    (walkMachine exchangeConfig (exchangeFs false 0)).Reachable Allowed exchangeDone := by
  have ho : (walkMachine exchangeConfig (exchangeFs false 0)).Reachable Allowed exchangeOpening :=
    reachable_nexts allowed_next 4 .init rfl
  have he : Allowed exchangeOpening (.change (exchangeFs true 1)) := by
    rintro fs ⟨⟩
    refine exchange_change ?_
    intro old hold
    obtain rfl := List.mem_singleton.mp hold
    decide
  have hr : (walkMachine exchangeConfig (exchangeFs false 0)).Reachable Allowed exchangeRead :=
    reachable_nexts allowed_next 6 (ho.step he rfl) rfl
  have hb : Allowed exchangeRead (.change (exchangeFs false 2)) := by
    rintro fs ⟨⟩
    refine exchange_change ?_
    intro old hold
    rcases List.mem_cons.mp hold with rfl | hf
    · decide
    · obtain rfl := List.mem_singleton.mp hf
      decide
  exact reachable_nexts allowed_next 4 (hr.step hb rfl) rfl

/-- A walk of `a/b` returns `a/b/y`, though `a/b` holds `x` alone at the end of the loop, and before
    and after every step but those between the two exchanges. -/
theorem items_of_other_directory : (exchangeFs false 0).tree.NoSymlinkedDirectories ∧
    ∃ w, (walkMachine exchangeConfig (exchangeFs false 0)).Reachable Allowed w ∧ w.phase = .done ∧
      ∃ fs d, w.finished = some fs ∧ fs.directoryAt exchangeConfig.path = some d ∧
        ["a", "b", "y"] ∈ w.items ∧ ¬ Lists exchangeConfig fs d exchangeConfig.path ["a", "b", "y"] ∧
        ["a", "b", "x"] ∉ w.items ∧ Lists exchangeConfig fs d exchangeConfig.path ["a", "b", "x"] := by
  refine ⟨noSymlinkedDirectories_of_isSymlink (exchange_isSymlink false), exchangeDone,
    exchangeDone_reachable, rfl, exchangeFs false 2, ⟨1, 4⟩, rfl, by decide, by decide, ?_, by decide,
    ?_⟩
  · intro h
    -- the only entry of the directory is the file `x`
    have ho : ∀ name i, (name, i) ∈ (exchangeFs false 2).entries ⟨1, 4⟩ →
        name = "x" ∧ i = ⟨1, 6⟩ := by
      intro name i he
      have hr : (name, i) ∈ [("x", (⟨1, 6⟩ : FileIdentity))] := he
      simpa using hr
    generalize hq : (["a", "b", "y"] : Path) = q at h
    cases h with
    | entry he =>
      obtain ⟨rfl, rfl⟩ := ho _ _ he
      revert hq
      decide
    | deeper he _ _ hd =>
      obtain ⟨rfl, rfl⟩ := ho _ _ he
      revert hd
      decide
  · have he : ("x", (⟨1, 6⟩ : FileIdentity)) ∈ (exchangeFs false 2).entries ⟨1, 4⟩ := by decide
    exact .entry he (by decide) rfl rfl

end DufsRam.Listing
