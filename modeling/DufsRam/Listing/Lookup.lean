import DufsRam.RootedFs.Tree

/-!
# Lookups of a directory walk

`openat2` with `O_PATH`, whose last component may name anything (`rooted_fs.rs`, lines 634-646 and
717-746), over the tree of `RootedFs.Tree`. A walk looks every path up from the root again.

In a tree without symbolic links to directories a lookup that ends in a directory goes from directory
to directory, and no other part of the tree matters.

Results:
* `openFromRoot_directory`: such a lookup is `descend`.
* `openFromRoot_append`: the lookup of an entry starts at the directory that holds it.
-/

namespace DufsRam.RootedFs.Tree

variable (t : Tree)

/-- `Tree.walkWith` with any node at the end. -/
def openWith (follow : Bool → FileIdentity → List Component → Except ErrorKind FileIdentity) :
    FileIdentity → List Component → Except ErrorKind FileIdentity
  | d, [] => .ok d
  | d, .up :: rest =>
    if d = t.root then .error .crossesDevices
    else
      match t.parentOf d with
      | some p => openWith follow p rest
      | none => .error .notADirectory
  | d, .name name :: rest =>
    match t.lookup d name with
    | none => .error .notFound
    | some i =>
      match t.kindOf i with
      | .directory => openWith follow i rest
      | .symlink absolute target => follow absolute d (target ++ rest)
      | .other => if rest = [] then .ok i else .error .notADirectory

/-- A lookup that follows at most `links` symbolic links. -/
def openAt : ℕ → FileIdentity → List Component → Except ErrorKind FileIdentity
  | 0 => t.openWith fun _ _ _ => .error .filesystemLoop
  | links + 1 => t.openWith fun absolute d rest =>
    if absolute then .error .crossesDevices else openAt links d rest

/-- `openat2` from the root with `O_PATH`. -/
def openFromRoot (path : Path) : Except ErrorKind FileIdentity :=
  t.openAt maxSymlinks t.root (path.map .name)

/-- `openat2` with `O_PATH | O_NOFOLLOW` of an entry below a directory path. -/
def openNofollow (directory : Path) (name : String) : Except ErrorKind FileIdentity :=
  match t.openDirectoryFromRoot directory with
  | .error e => .error e
  | .ok d =>
    match t.lookup d name with
    | some i => .ok i
    | none => .error .notFound

/-- Is the node a symbolic link? -/
def isSymlink (i : FileIdentity) : Bool :=
  match t.kindOf i with
  | .symlink _ _ => true
  | _ => false

/-- From a directory to a directory, without symbolic links. -/
def descend : FileIdentity → Path → Option FileIdentity
  | d, [] => some d
  | d, name :: path =>
    match t.lookup d name with
    | some i => if t.isDirectory i then descend i path else none
    | none => none

/-- No symbolic link leads to a directory. -/
def NoSymlinkedDirectories : Prop :=
  ∀ d name i target links x, t.lookup d name = some i → t.kindOf i = .symlink false target →
    t.walk links d target ≠ .ok x

variable {t}

/-! ## Lookups that end in a directory -/

variable {x d i : FileIdentity} {path : Path}

theorem walkWith_of_openWith
    {fo fo' : Bool → FileIdentity → List Component → Except ErrorKind FileIdentity}
    (hx : t.isDirectory x = true)
    (hf : ∀ abs d p, fo abs d p = .ok x → fo' abs d p = .ok x)
    (p : List Component) (h : t.openWith fo d p = .ok x) :
    t.walkWith fo' d p = .ok x := by
  induction p generalizing d with
  | nil => exact h
  | cons c p ih =>
    cases c with
    | up =>
      rw [openWith] at h
      rw [walkWith]
      split_ifs at h ⊢ with hr
      cases hp : t.parentOf d with
      | none =>
        rw [hp] at h
        cases h
      | some par =>
        rw [hp] at h
        exact ih h
    | name name =>
      rw [openWith] at h
      rw [walkWith]
      cases hlk : t.lookup d name with
      | none =>
        rw [hlk] at h
        cases h
      | some i =>
        simp only [hlk] at h ⊢
        cases hk : t.kindOf i with
        | directory =>
          simp only [hk] at h
          exact ih h
        | symlink abs tgt =>
          simp only [hk] at h
          exact hf _ _ _ h
        | other =>
          simp only [hk] at h
          split_ifs at h
          cases h
          rw [isDirectory, hk] at hx
          cases hx

theorem walk_of_openAt (hx : t.isDirectory x = true) {n : ℕ} (p : List Component)
    (h : t.openAt n d p = .ok x) :
    t.walk n d p = .ok x := by
  induction n generalizing d p with
  | zero =>
    refine walkWith_of_openWith hx (fun abs d p hf => ?_) p h
    cases hf
  | succ n ih =>
    refine walkWith_of_openWith hx (fun abs d p hf => ?_) p h
    split_ifs at hf ⊢
    exact ih p hf

/-- A lookup of directories never meets a symbolic link. -/
theorem descend_of_walk (ht : t.NoSymlinkedDirectories) {n : ℕ} (path : Path)
    (h : t.walk n d (path.map .name) = .ok x) : t.descend d path = some x := by
  induction path generalizing d with
  | nil =>
    cases n <;> exact congrArg some (Except.ok.inj h)
  | cons name path ih =>
    rw [descend]
    -- the first component, whatever the number of links that may still be followed
    obtain ⟨fo, hw, hf⟩ : ∃ fo, t.walk n = t.walkWith fo ∧ ∀ abs d' p x, fo abs d' p = .ok x →
          abs = false ∧ ∃ n, t.walk n d' p = .ok x := by
      cases n with
      | zero => exact ⟨_, rfl, fun _ _ _ _ hf => (nomatch hf)⟩
      | succ n =>
        refine ⟨_, rfl, fun abs d' p x hf => ?_⟩
        split_ifs at hf with ha
        exact ⟨Bool.eq_false_iff.mpr ha, n, hf⟩
    rw [hw, List.map_cons, walkWith] at h
    cases hlk : t.lookup d name with
    | none =>
      rw [hlk] at h
      cases h
    | some i =>
      simp only [hlk] at h ⊢
      cases hk : t.kindOf i with
      | directory =>
        simp only [hk] at h
        rw [← hw] at h
        rw [if_pos (by rw [isDirectory, hk]; rfl)]
        exact ih h
      | symlink abs tgt =>
        simp only [hk] at h
        obtain ⟨rfl, n', hl⟩ := hf _ _ _ _ h
        -- the link itself would lead to a directory
        cases htg : t.walk n' d tgt with
        | error e =>
          rw [walk_error_append _ _ htg] at hl
          cases hl
        | ok y => exact absurd htg (ht d name i tgt n' y hlk hk)
      | other =>
        simp only [hk] at h
        cases h

theorem openFromRoot_directory (ht : t.NoSymlinkedDirectories) (h : t.openFromRoot path = .ok x)
    (hx : t.isDirectory x = true) :
    t.descend t.root path = some x :=
  descend_of_walk ht path (walk_of_openAt hx _ h)

/-! ## Lookups of entries -/

/-- A lookup goes through the directories of a path. -/
theorem openWith_append
    {fo : Bool → FileIdentity → List Component → Except ErrorKind FileIdentity} (path : Path)
    (rest : List Component) (h : t.descend d path = some x) :
    t.openWith fo d (path.map .name ++ rest) = t.openWith fo x rest := by
  induction path generalizing d with
  | nil =>
    obtain ⟨⟩ := h
    rfl
  | cons name path ih =>
    rw [descend] at h
    rw [List.map_cons, List.cons_append, openWith]
    cases hlk : t.lookup d name with
    | none =>
      rw [hlk] at h
      cases h
    | some i =>
      simp only [hlk] at h ⊢
      split_ifs at h with hd
      have hk : t.kindOf i = .directory := of_decide_eq_true hd
      simp only [hk]
      exact ih h

theorem openAt_append {n : ℕ} (path : Path) (rest : List Component)
    (h : t.descend d path = some x) :
    t.openAt n d (path.map .name ++ rest) = t.openAt n x rest := by
  cases n with
  | zero | succ => exact openWith_append path rest h

theorem openFromRoot_append (h : t.descend t.root path = some d) (name : String) :
    t.openFromRoot (path ++ [name]) = t.openAt maxSymlinks d [.name name] := by
  rw [openFromRoot, List.map_append]
  exact openAt_append path _ h

/-- An entry that is no symbolic link is what its path opens. -/
theorem openFromRoot_entry {name : String} (h : t.descend t.root path = some d)
    (hi : t.lookup d name = some i) (hl : t.isSymlink i = false) :
    t.openFromRoot (path ++ [name]) = .ok i := by
  rw [openFromRoot_append h, maxSymlinks, openAt, openWith, hi]
  cases hk : t.kindOf i with
  | directory => simp only [hk, openWith]
  | symlink abs tgt =>
    rw [isSymlink, hk] at hl
    cases hl
  | other => simp [hk]

/-- A symbolic link does not open a directory. -/
theorem openFromRoot_symlink (ht : t.NoSymlinkedDirectories) {name : String}
    (h : t.descend t.root path = some d) (hi : t.lookup d name = some i)
    (hl : t.isSymlink i = true) (hx : t.openFromRoot (path ++ [name]) = .ok x) :
    t.isDirectory x = false := by
  by_contra hdr
  rw [Bool.not_eq_false] at hdr
  rw [openFromRoot_append h] at hx
  have hw := walk_of_openAt hdr _ hx
  have hd : t.descend d [name] = some x := descend_of_walk ht [name] hw
  rw [descend, hi] at hd
  have hn : t.isDirectory i = false := by
    unfold isSymlink at hl
    split at hl
    · next abs tgt hk => rw [isDirectory, hk]; rfl
    · cases hl
  simp only [hn] at hd
  cases hd

theorem descend_append (path : Path) (name : String) (h : t.descend d path = some x)
    (hi : t.lookup x name = some i) (hd : t.isDirectory i = true) :
    t.descend d (path ++ [name]) = some i := by
  induction path generalizing d with
  | nil =>
    obtain ⟨⟩ := h
    simp [descend, hi, hd]
  | cons fst path ih =>
    rw [descend] at h
    rw [List.cons_append, descend]
    cases hlk : t.lookup d fst with
    | none =>
      rw [hlk] at h
      cases h
    | some j =>
      simp only [hlk] at h ⊢
      split_ifs at h ⊢
      exact ih h

end DufsRam.RootedFs.Tree
