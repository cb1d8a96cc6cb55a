import Mathlib
import DufsRam.Listing.Walk

/-!
# The recorded directories of a walk

What the walk knows about the directories it recorded, at one state of the file system: they are where
they were found, each is an entry of another one up to the path of the walk, and the entries read so
far are handled. Nothing here depends on the steps of the walk.

Results:
* `Exact.mem_items_iff`: when everything is read, the items are what a walk lists.
* `Stable.coherent`, `Stable.readTo`: a change that leaves the entries of the recorded directories
  alone, the directory at the path of the walk and the links that are shown, keeps all of this.
-/

namespace DufsRam.Listing

open RootedFs

/-! ## Entries -/

variable {i : FileIdentity}

theorem mem_entries_iff {fs : FileSystem} {d : FileIdentity} {name : String} :
    (name, i) ∈ fs.entries d ↔ fs.tree.lookup d name = some i := by
  rcases hg : fs.tree.nodes.get d with _ | (_ | _) <;>
    simp [FileSystem.entries, Tree.lookup, hg, Table.get_eq_some_iff]

theorem isSymlink_of_isDirectory {t : Tree} (h : t.isDirectory i = true) :
    t.isSymlink i = false := by
  have hk : t.kindOf i = .directory := of_decide_eq_true h
  rw [Tree.isSymlink, hk]

/-- Only symbolic links may be hidden. -/
theorem shows_of_not_symlink {fs : FileSystem} {path : Path} {d : FileIdentity} {name : String}
    (hd : fs.directoryAt path = some d) (hi : fs.tree.lookup d name = some i)
    (hl : fs.tree.isSymlink i = false) : fs.shows path name i = true := by
  rw [FileSystem.shows, Tree.openFromRoot_entry hd hi hl]

/-! ## What has been read -/

section Facts

variable (c : Config) (fs : FileSystem) (dirs : Set VisitedDirectory) (items : List Path)

/-- An entry that is shown is in the result, and a directory is recorded. -/
def Handled (path : Path) (name : String) (i : FileIdentity) : Prop :=
  fs.shows path name i = true → c.hidden (path ++ [name]) = false →
    (c.includes (path ++ [name]) = true → path ++ [name] ∈ items) ∧
    (fs.tree.isDirectory i = true →
      ∃ v ∈ dirs, v.path = path ++ [name] ∧ v.snapshot.identity = i)

/-- The first `n` entries of a recorded directory are handled. -/
def ReadTo (v : VisitedDirectory) (n : ℕ) : Prop :=
  ∀ k < n, ∀ name i, (fs.entries v.snapshot.identity)[k]? = some (name, i) →
    Handled c fs dirs items v.path name i

/-- The recorded directory `v` is an entry of the recorded directory `p`. -/
structure ChildOf (v p : VisitedDirectory) (name : String) : Prop where
  path : v.path = p.path ++ [name]
  entry : fs.tree.lookup p.snapshot.identity name = some v.snapshot.identity
  directory : fs.tree.isDirectory v.snapshot.identity = true
  visible : c.hidden v.path = false

/-- The path `q` is that of an entry of `v` that a walk returns. -/
structure ItemOf (q : Path) (v : VisitedDirectory) (name : String) (i : FileIdentity) : Prop where
  path : q = v.path ++ [name]
  entry : fs.tree.lookup v.snapshot.identity name = some i
  shown : fs.shows v.path name i = true
  visible : c.hidden q = false
  included : c.includes q = true

/-- The recorded directories are where they were found, and the items are entries of them. -/
structure Coherent : Prop where
  located : ∀ v ∈ dirs, fs.directoryAt v.path = some v.snapshot.identity
  parents : ∀ v ∈ dirs, v.path = c.path ∨ ∃ p ∈ dirs, ∃ name, ChildOf c fs v p name
  sound : ∀ q ∈ items, ∃ v ∈ dirs, ∃ name i, ItemOf c fs q v name i

/-- The recorded directories have the times of their snapshots. -/
def Live : Prop := ∀ v ∈ dirs, fs.times v.snapshot.identity = v.snapshot.times

/-- Everything below the path of the walk is read. -/
structure Exact : Prop where
  coherent : Coherent c fs dirs items
  rooted : ∃ v ∈ dirs, v.path = c.path
  closed : ∀ v ∈ dirs, ∀ n, ReadTo c fs dirs items v n

end Facts

section Mono

variable {c : Config} {fs : FileSystem} {dirs dirs' : Set VisitedDirectory} {items items' : List Path}

theorem Handled.mono (hdr : dirs ⊆ dirs') (hit : items ⊆ items') {path : Path} {name : String}
    {i : FileIdentity} (h : Handled c fs dirs items path name i) :
    Handled c fs dirs' items' path name i := by
  intro hsh hvs
  obtain ⟨hin, hdi⟩ := h hsh hvs
  refine ⟨fun hi => hit (hin hi), fun hd => ?_⟩
  obtain ⟨v, hv, hv'⟩ := hdi hd
  exact ⟨v, hdr hv, hv'⟩

variable {v : VisitedDirectory}

theorem ReadTo.mono (hd : dirs ⊆ dirs') (hi : items ⊆ items') {n : ℕ}
    (h : ReadTo c fs dirs items v n) : ReadTo c fs dirs' items' v n :=
  fun k hk name i he => (h k hk name i he).mono hd hi

theorem ReadTo.succ {n : ℕ} {name : String} {i : FileIdentity} (h : ReadTo c fs dirs items v n)
    (he : (fs.entries v.snapshot.identity)[n]? = some (name, i))
    (hi : Handled c fs dirs items v.path name i) : ReadTo c fs dirs items v (n + 1) := by
  intro k hk name' i' he'
  rcases Nat.lt_succ_iff_lt_or_eq.mp hk with hlt | rfl
  · exact h k hlt name' i' he'
  · rw [he] at he'
    cases he'
    exact hi

/-- At the end of a directory all its entries are handled. -/
theorem ReadTo.all {n : ℕ} (h : ReadTo c fs dirs items v n)
    (hen : (fs.entries v.snapshot.identity)[n]? = none) (m : ℕ) : ReadTo c fs dirs items v m := by
  intro k _ name i he
  refine h k ?_ name i he
  have hl := List.getElem?_eq_none_iff.mp hen
  obtain ⟨hlt, -⟩ := List.getElem?_eq_some_iff.mp he
  omega

end Mono

/-! ## The listing -/

section Listing

variable {c : Config} {fs : FileSystem} {dirs : Set VisitedDirectory} {items : List Path}

theorem ChildOf.length_lt {v p : VisitedDirectory} {name : String} (h : ChildOf c fs v p name) :
    p.path.length < v.path.length := by
  rw [h.path, List.length_append]
  exact Nat.lt_succ_self _

variable {d : FileIdentity}

/-- What is listed below a recorded directory is listed below the path of the walk. -/
theorem Coherent.lists (h : Coherent c fs dirs items) (hd : fs.directoryAt c.path = some d)
    {q : Path} (n : ℕ) :
    ∀ v ∈ dirs, v.path.length = n → Lists c fs v.snapshot.identity v.path q →
      Lists c fs d c.path q := by
  -- from a directory to its parent, whose path is shorter
  induction n using Nat.strong_induction_on with
  | _ n ih =>
    intro v hv hln hq
    rcases h.parents v hv with hr | ⟨p, hp, name, hc⟩
    · have hl := h.located v hv
      rw [hr, hd] at hl
      cases hl
      exact hr ▸ hq
    · have hsh : p.path.length < n := by
        rw [← hln]
        exact hc.length_lt
      have hsw : fs.shows p.path name v.snapshot.identity = true :=
        shows_of_not_symlink (h.located p hp) hc.entry
          (isSymlink_of_isDirectory hc.directory)
      refine ih _ hsh p hp rfl (.deeper (mem_entries_iff.mpr hc.entry) hsw ?_ hc.directory ?_)
      · exact hc.path ▸ hc.visible
      · exact hc.path ▸ hq

theorem Exact.mem_of_lists (h : Exact c fs dirs items) {path q : Path} (hq : Lists c fs d path q) :
    ∀ v ∈ dirs, v.snapshot.identity = d → v.path = path → q ∈ items := by
  induction hq with
  | entry he hsh hvs hi =>
    rintro v hv rfl rfl
    obtain ⟨k, hk⟩ := List.mem_iff_getElem?.mp he
    exact (h.closed v hv (k + 1) k (Nat.lt_succ_self k) _ _ hk hsh hvs).1 hi
  | deeper he hsh hvs hd _ ih =>
    rintro v hv rfl rfl
    obtain ⟨k, hk⟩ := List.mem_iff_getElem?.mp he
    obtain ⟨v', hv', hp, hid⟩ :=
      (h.closed v hv (k + 1) k (Nat.lt_succ_self k) _ _ hk hsh hvs).2 hd
    exact ih v' hv' hid hp

/-- The items are what a walk lists. -/
theorem Exact.mem_items_iff (h : Exact c fs dirs items) (hd : fs.directoryAt c.path = some d)
    (q : Path) : q ∈ items ↔ Lists c fs d c.path q := by
  constructor
  · intro hq
    obtain ⟨v, hv, name, i, hi⟩ := h.coherent.sound q hq
    refine h.coherent.lists hd v.path.length v hv rfl ?_
    obtain rfl := hi.path
    exact .entry (mem_entries_iff.mpr hi.entry) hi.shown hi.visible hi.included
  · intro hq
    obtain ⟨v, hv, hp⟩ := h.rooted
    have hl := h.coherent.located v hv
    rw [hp, hd] at hl
    exact h.mem_of_lists hq v hv (Option.some.inj hl).symm hp

end Listing

/-! ## New items and directories -/

section Extend

variable {c : Config} {fs : FileSystem} {dirs : Set VisitedDirectory} {items : List Path}

theorem Coherent.addItem (h : Coherent c fs dirs items) {q : Path} {v : VisitedDirectory}
    (hv : v ∈ dirs) {name : String} {i : FileIdentity} (hi : ItemOf c fs q v name i) :
    Coherent c fs dirs (items ++ [q]) where
  located := h.located
  parents := h.parents
  sound q' hq' := by
    rcases List.mem_append.mp hq' with hold | hn
    · exact h.sound q' hold
    · obtain rfl := List.mem_singleton.mp hn
      exact ⟨v, hv, name, i, hi⟩

theorem Coherent.addChild (h : Coherent c fs dirs items) {v p : VisitedDirectory} (hp : p ∈ dirs)
    {name : String} (hc : ChildOf c fs v p name) : Coherent c fs (insert v dirs) items where
  located v' hv' := by
    rcases Set.mem_insert_iff.mp hv' with rfl | hold
    · rw [hc.path]
      exact Tree.descend_append _ _ (h.located p hp) hc.entry hc.directory
    · exact h.located v' hold
  parents v' hv' := by
    rcases Set.mem_insert_iff.mp hv' with rfl | hold
    · exact .inr ⟨p, .inr hp, name, hc⟩
    · rcases h.parents v' hold with hr | ⟨p', hp', hc'⟩
      · exact .inl hr
      · exact .inr ⟨p', .inr hp', hc'⟩
  sound q hq := by
    obtain ⟨v', hv', hi⟩ := h.sound q hq
    exact ⟨v', .inr hv', hi⟩

end Extend

/-! ## Changes that leave the recorded directories alone -/

section Changes

variable {c : Config} {past : List FileSystem} {fs fs' : FileSystem} {dirs : Set VisitedDirectory}
  {items : List Path}

/-- A directory with times it had before did not change. -/
theorem Change.unchanged (h : Change past fs fs') {d : FileIdentity} {old : FileSystem}
    (hold : old ∈ fs :: past) (ht : fs'.times d = old.times d) :
    fs'.entries d = fs.entries d ∧ fs'.times d = fs.times d := by
  rcases h.times d with hsm | hf
  · exact hsm
  · exact absurd ht (hf old hold)

/-- The recorded directories keep their entries, and the path of the walk its directory. -/
structure Stable (c : Config) (past : List FileSystem) (fs fs' : FileSystem)
    (dirs : Set VisitedDirectory) : Prop where
  change : Change past fs fs'
  root : fs'.directoryAt c.path = fs.directoryAt c.path
  links : LinksKept fs fs'
  entries : ∀ v ∈ dirs, fs'.entries v.snapshot.identity = fs.entries v.snapshot.identity

variable (hs : Stable c past fs fs' dirs)
include hs

variable {v : VisitedDirectory} {name : String} {i : FileIdentity}

theorem Stable.lookup (hv : v ∈ dirs) (name : String) :
    fs'.tree.lookup v.snapshot.identity name = fs.tree.lookup v.snapshot.identity name := by
  apply Option.ext
  intro i
  rw [← mem_entries_iff, ← mem_entries_iff, hs.entries v hv]

theorem Stable.kindOf (hv : v ∈ dirs) (hi : fs.tree.lookup v.snapshot.identity name = some i) :
    fs'.tree.kindOf i = fs.tree.kindOf i :=
  hs.change.kinds _ name i hi ((hs.lookup hv name).trans hi)

theorem Stable.isDirectory (hv : v ∈ dirs) (hi : fs.tree.lookup v.snapshot.identity name = some i) :
    fs'.tree.isDirectory i = fs.tree.isDirectory i := by
  rw [Tree.isDirectory, Tree.isDirectory, hs.kindOf hv hi]

theorem Stable.isSymlink (hv : v ∈ dirs) (hi : fs.tree.lookup v.snapshot.identity name = some i) :
    fs'.tree.isSymlink i = fs.tree.isSymlink i := by
  rw [Tree.isSymlink, Tree.isSymlink, hs.kindOf hv hi]

theorem Stable.childOf {p : VisitedDirectory} (hp : p ∈ dirs) (h : ChildOf c fs v p name) :
    ChildOf c fs' v p name where
  path := h.path
  entry := (hs.lookup hp name).trans h.entry
  directory := (hs.isDirectory hp h.entry).trans h.directory
  visible := h.visible

theorem Stable.located (h : Coherent c fs dirs items) (n : ℕ) :
    ∀ v ∈ dirs, v.path.length = n → fs'.directoryAt v.path = some v.snapshot.identity := by
  -- a directory is found from its parent, whose path is shorter
  induction n using Nat.strong_induction_on with
  | _ n ih =>
    intro v hv hl
    rcases h.parents v hv with hr | ⟨p, hp, name, hc⟩
    · rw [hr, hs.root, ← hr]
      exact h.located v hv
    have hsh : p.path.length < n := by
      rw [← hl]
      exact hc.length_lt
    have hc' := hs.childOf hp hc
    rw [hc.path]
    exact Tree.descend_append _ _ (ih _ hsh p hp rfl) hc'.entry hc'.directory

theorem Stable.shows (h : Coherent c fs dirs items) (hv : v ∈ dirs)
    (hi : fs.tree.lookup v.snapshot.identity name = some i) :
    fs'.shows v.path name i = fs.shows v.path name i := by
  have hi' := (hs.lookup hv name).trans hi
  have hlc := hs.located h _ v hv rfl
  cases hl : fs.tree.isSymlink i with
  | true => exact hs.links _ name _ i (h.located v hv) hlc hi hi' hl
  | false =>
    have hl' := (hs.isSymlink hv hi).trans hl
    rw [shows_of_not_symlink (h.located v hv) hi hl, shows_of_not_symlink hlc hi' hl']

theorem Stable.coherent (h : Coherent c fs dirs items) : Coherent c fs' dirs items where
  located v hv := hs.located h _ v hv rfl
  parents v hv := by
    rcases h.parents v hv with hr | ⟨p, hp, name, hc⟩
    · exact .inl hr
    · exact .inr ⟨p, hp, name, hs.childOf hp hc⟩
  sound q hq := by
    obtain ⟨v, hv, name, i, hi⟩ := h.sound q hq
    refine ⟨v, hv, name, i, hi.path, (hs.lookup hv name).trans hi.entry, ?_, hi.visible,
      hi.included⟩
    rw [hs.shows h hv hi.entry]
    exact hi.shown

theorem Stable.readTo (h : Coherent c fs dirs items) (hv : v ∈ dirs) {n : ℕ}
    (hr : ReadTo c fs dirs items v n) : ReadTo c fs' dirs items v n := by
  intro k hk name i he hsh hvs
  rw [hs.entries v hv] at he
  have hi : fs.tree.lookup v.snapshot.identity name = some i :=
    mem_entries_iff.mp (List.mem_of_getElem? he)
  rw [hs.shows h hv hi] at hsh
  rw [hs.isDirectory hv hi]
  exact hr k hk name i he hsh hvs

end Changes

end DufsRam.Listing
