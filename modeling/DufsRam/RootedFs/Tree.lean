import DufsRam.Lib.Table
import DufsRam.PathCoordinator.Conflict

/-!
# A directory tree with symbolic links

The part of a Linux filesystem that `rooted_fs.rs` sees through its root descriptor:
files, symbolic links and directories, named by device and inode number. The lookup
follows `openat2` with `RESOLVE_BENEATH | RESOLVE_NO_MAGICLINKS` (line 342): it never
leaves the root, and it follows at most 40 links.

Every directory of a `Tree` can be opened, an `AccessTree` adds permissions, and there are no
bind mounts: a directory has one parent and one name. Lengths of names and paths are not
bounded.

Results:
* `walk_error_append`: a lookup that fails fails in the same way on every longer path.
* `contains_iff_of_parent`: containment through entries agrees with the `..` entries.
-/

namespace DufsRam.RootedFs

/-- A component of a symbolic link's target; `.` and empty components are dropped. -/
inductive Component where
  | up
  | name (name : String)
deriving DecidableEq

inductive Node where
  | file
  | symlink (absolute : Bool) (target : List Component)
  | directory (parent : FileIdentity) (entries : Table String FileIdentity)

/-- What a lookup sees of a node. -/
inductive Kind where
  | directory
  | symlink (absolute : Bool) (target : List Component)
  | other
deriving DecidableEq

/-- The error kinds the resolution of a path can report. -/
inductive ErrorKind where
  | notFound
  | notADirectory
  | permissionDenied
  | crossesDevices
  | filesystemLoop
  | invalidInput
  | invalidData
deriving DecidableEq

/-- The nodes below a root directory. -/
structure Tree where
  root : FileIdentity
  nodes : Table FileIdentity Node
  root_directory : ∃ parent entries, nodes.get root = some (.directory parent entries)
  /-- A directory has one parent, which names it, and the root is in no directory. -/
  entry_parent : ∀ {d p entries name c q entries'}, nodes.get d = some (.directory p entries) →
    entries.get name = some c → nodes.get c = some (.directory q entries') → q = d ∧ c ≠ root
  entry_unique : ∀ {d p entries name name' c q entries'},
    nodes.get d = some (.directory p entries) → entries.get name = some c →
    entries.get name' = some c → nodes.get c = some (.directory q entries') → name = name'
  parent_entry : ∀ {d p entries}, nodes.get d = some (.directory p entries) → d ≠ root →
    ∃ q entries' name, nodes.get p = some (.directory q entries') ∧ entries'.get name = some d
  /-- Every directory is below the root. -/
  grounded : ∃ depth : FileIdentity → ℕ, ∀ d p entries,
    nodes.get d = some (.directory p entries) → d ≠ root → depth p < depth d

namespace Tree

variable (t : Tree)

/-- The entry of a directory, final component not followed. -/
def lookup (d : FileIdentity) (name : String) : Option FileIdentity :=
  match t.nodes.get d with
  | some (.directory _ entries) => entries.get name
  | _ => none

/-- The `..` entry of a directory. -/
def parentOf (d : FileIdentity) : Option FileIdentity :=
  match t.nodes.get d with
  | some (.directory parent _) => some parent
  | _ => none

def kindOf (i : FileIdentity) : Kind :=
  match t.nodes.get i with
  | some (.directory _ _) => .directory
  | some (.symlink absolute target) => .symlink absolute target
  | _ => .other

def isDirectory (i : FileIdentity) : Bool := decide (t.kindOf i = .directory)

/-- A lookup from a directory that hands over to `follow` at a symbolic link, with the
    directory of the link, the kind of its target and the components left. -/
def walkWith (follow : Bool → FileIdentity → List Component → Except ErrorKind FileIdentity) :
    FileIdentity → List Component → Except ErrorKind FileIdentity
  | d, [] => .ok d
  | d, .up :: rest =>
    if d = t.root then .error .crossesDevices
    else
      match t.parentOf d with
      | some p => walkWith follow p rest
      | none => .error .notADirectory
  | d, .name name :: rest =>
    match t.lookup d name with
    | none => .error .notFound
    | some i =>
      match t.kindOf i with
      | .directory => walkWith follow i rest
      | .symlink absolute target => follow absolute d (target ++ rest)
      | .other => .error .notADirectory

/-- A lookup that follows at most `links` symbolic links. Under `RESOLVE_BENEATH` an
    absolute link is an escape. -/
def walk : ℕ → FileIdentity → List Component → Except ErrorKind FileIdentity
  | 0 => t.walkWith fun _ _ _ => .error .filesystemLoop
  | links + 1 => t.walkWith fun absolute d rest =>
    if absolute then .error .crossesDevices else walk links d rest

/-- The kernel's `MAXSYMLINKS`. -/
def maxSymlinks : ℕ := 40

/-- `open_directory_from_root` (lines 2668-2682). -/
def openDirectoryFromRoot (path : Path) : Except ErrorKind FileIdentity :=
  t.walk maxSymlinks t.root (path.map .name)

/-- `Contains t a d`: the directory `d` is `a` or lies below it. -/
inductive Contains : FileIdentity → FileIdentity → Prop
  | refl {d : FileIdentity} (hd : t.isDirectory d = true) : Contains d d
  | entry {a b d : FileIdentity} {name : String} (hname : t.lookup a name = some b)
      (h : Contains b d) : Contains a d

end Tree

/-! ## Permissions -/

/-- A tree with the permissions that the server has on its directories. -/
structure AccessTree where
  tree : Tree
  readable : FileIdentity → Bool
  searchable : FileIdentity → Bool

namespace AccessTree

variable (t : AccessTree)

/-- `Tree.walkWith` with the search permission of every directory in which a component is looked
    up. -/
def walkWith (follow : Bool → FileIdentity → List Component → Except ErrorKind FileIdentity) :
    FileIdentity → List Component → Except ErrorKind FileIdentity
  | d, [] => .ok d
  | d, .up :: rest =>
    if t.searchable d = false then .error .permissionDenied
    else if d = t.tree.root then .error .crossesDevices
    else
      match t.tree.parentOf d with
      | some p => walkWith follow p rest
      | none => .error .notADirectory
  | d, .name name :: rest =>
    if t.searchable d = false then .error .permissionDenied
    else
      match t.tree.lookup d name with
      | none => .error .notFound
      | some i =>
        match t.tree.kindOf i with
        | .directory => walkWith follow i rest
        | .symlink absolute target => follow absolute d (target ++ rest)
        | .other => .error .notADirectory

/-- A lookup that follows at most `links` symbolic links. -/
def walk : ℕ → FileIdentity → List Component → Except ErrorKind FileIdentity
  | 0 => t.walkWith fun _ _ _ => .error .filesystemLoop
  | links + 1 => t.walkWith fun absolute d rest =>
    if absolute then .error .crossesDevices else walk links d rest

/-- A tree in which everything is permitted. -/
def ofTree (t : Tree) : AccessTree := ⟨t, fun _ => true, fun _ => true⟩

theorem walkWith_ofTree (t : Tree)
    (fo : Bool → FileIdentity → List Component → Except ErrorKind FileIdentity)
    (components : List Component) :
    ∀ d, (ofTree t).walkWith fo d components = t.walkWith fo d components := by
  induction components with
  | nil =>
    intro d
    rfl
  | cons c rest ih =>
    intro d
    cases c with
    | up | name =>
      simp only [walkWith, Tree.walkWith, ofTree] at ih ⊢
      simp only [ih]
      rfl

theorem walk_ofTree (t : Tree) (links : ℕ) : (ofTree t).walk links = t.walk links := by
  induction links with
  | zero =>
    funext d components
    exact walkWith_ofTree t _ components d
  | succ links ih =>
    funext d components
    rw [walk, Tree.walk, ih]
    exact walkWith_ofTree t _ components d

variable {t} {d : FileIdentity} {e : ErrorKind}

theorem walkWith_error_append
    {fo : Bool → FileIdentity → List Component → Except ErrorKind FileIdentity}
    (hf : ∀ abs d p q e, fo abs d p = .error e →
      fo abs d (p ++ q) = .error e) (p q : List Component)
    (h : t.walkWith fo d p = .error e) : t.walkWith fo d (p ++ q) = .error e := by
  induction p generalizing d with
  | nil => exact nomatch h
  | cons c p ih =>
    cases c with
    | up =>
      rw [List.cons_append, walkWith] at *
      split_ifs at h ⊢ with hs hr
      · exact h
      · exact h
      cases hp : t.tree.parentOf d with
      | none => simpa only [hp] using h
      | some par =>
        simp only [hp] at h ⊢
        exact ih h
    | name name =>
      rw [List.cons_append, walkWith] at *
      split_ifs at h ⊢ with hs
      · exact h
      cases hlk : t.tree.lookup d name with
      | none => simpa only [hlk] using h
      | some i =>
        simp only [hlk] at h ⊢
        split at h
        · exact ih h
        · rw [← List.append_assoc]
          exact hf _ _ _ _ _ h
        · exact h

theorem walk_error_append {n : ℕ} (p q : List Component) (h : t.walk n d p = .error e) :
    t.walk n d (p ++ q) = .error e := by
  induction n generalizing d p q e with
  | zero =>
    refine walkWith_error_append ?_ p q h
    intro abs d p q e h
    exact h
  | succ n ih =>
    refine walkWith_error_append ?_ p q h
    intro abs d p q e h
    split_ifs at h ⊢
    · exact h
    · exact ih p q h

end AccessTree

namespace Tree

/-! ## Lookups of longer paths -/

variable {t : Tree} {d i p a : FileIdentity} {e : ErrorKind} {name : String}

theorem walk_error_append {n : ℕ} (p q : List Component) (h : t.walk n d p = .error e) :
    t.walk n d (p ++ q) = .error e := by
  rw [← AccessTree.walk_ofTree] at h ⊢
  exact AccessTree.walk_error_append p q h

theorem openDirectoryFromRoot_error_mono {p q : Path} (hpq : p <+: q)
    (h : t.openDirectoryFromRoot p = .error e) : t.openDirectoryFromRoot q = .error e := by
  obtain ⟨r, rfl⟩ := hpq
  rw [openDirectoryFromRoot, List.map_append]
  exact walk_error_append _ _ h

/-! ## Containment -/

theorem isDirectory_iff :
    t.isDirectory i = true ↔ ∃ p es, t.nodes.get i = some (.directory p es) := by
  unfold isDirectory kindOf
  rw [decide_eq_true_iff]
  constructor
  · intro h
    split at h
    · next p es hg => exact ⟨p, es, hg⟩
    · cases h
    · cases h
  · rintro ⟨p, es, hg⟩
    rw [hg]

theorem lookup_eq_some (h : t.lookup d name = some i) :
    ∃ p es, t.nodes.get d = some (.directory p es) ∧ es.get name = some i := by
  unfold lookup at h
  split at h
  · next p es hd => exact ⟨p, es, hd, h⟩
  · cases h

theorem parentOf_eq_some :
    t.parentOf d = some p ↔ ∃ es, t.nodes.get d = some (.directory p es) := by
  unfold parentOf
  split
  · next q es h => simp [h]
  next h =>
  simp only [reduceCtorEq, false_iff]
  rintro ⟨es, hd⟩
  exact h p es hd

/-- The `..` entry of a directory that is named by an entry leads back. -/
theorem parentOf_of_lookup {c : FileIdentity} (hn : t.lookup d name = some c)
    (hc : t.parentOf c = some p) : p = d ∧ c ≠ t.root := by
  obtain ⟨q, es, hd, he⟩ := lookup_eq_some hn
  obtain ⟨es', hdr⟩ := parentOf_eq_some.mp hc
  exact t.entry_parent hd he hdr

theorem isDirectory_iff_parentOf : t.isDirectory i = true ↔ ∃ p, t.parentOf i = some p := by
  simp [isDirectory_iff, parentOf_eq_some]

theorem isDirectory_of_lookup (h : t.lookup d name = some i) : t.isDirectory d = true := by
  obtain ⟨p, es, hg, -⟩ := lookup_eq_some h
  exact isDirectory_iff.mpr ⟨p, es, hg⟩

theorem Contains.isDirectory (h : t.Contains a d) : t.isDirectory d = true := by
  induction h with
  | refl hd => exact hd
  | entry hn h ih => exact ih

theorem Contains.trans {b : FileIdentity} (hab : t.Contains a b) (hbd : t.Contains b d) :
    t.Contains a d := by
  induction hab with
  | refl => exact hbd
  | entry hn _ ih => exact .entry hn (ih hbd)

theorem contains_root_iff : t.Contains a t.root ↔ a = t.root := by
  constructor
  · intro h
    generalize hr : t.root = r at h
    induction h with
    | refl => rfl
    | @entry a b d name hn h ih =>
      -- The root is in no directory.
      have hb : b = d := ih hr
      have hd := h.isDirectory
      obtain ⟨p, hp⟩ := isDirectory_iff_parentOf.mp hd
      rw [← hb] at hp
      exact absurd (hb.trans hr.symm) (parentOf_of_lookup hn hp).2
  · rintro rfl
    exact .refl (isDirectory_iff.mpr t.root_directory)

theorem contains_iff_of_parent (hd : d ≠ t.root) (hp : t.parentOf d = some p) :
    t.Contains a d ↔ a = d ∨ t.Contains a p := by
  have hdr : t.isDirectory d = true := isDirectory_iff_parentOf.mpr ⟨p, hp⟩
  constructor
  · intro h
    induction h with
    | refl => exact .inl rfl
    | @entry a b d name hn h ih =>
      right
      obtain rfl | hb := ih hd hp hdr
      · obtain ⟨rfl, -⟩ := parentOf_of_lookup hn hp
        exact .refl (isDirectory_of_lookup hn)
      · exact .entry hn hb
  · rintro (rfl | h)
    · exact .refl hdr
    obtain ⟨es, hg⟩ := parentOf_eq_some.mp hp
    obtain ⟨q, es', name, hpr, he⟩ := t.parent_entry hg hd
    have hn : t.lookup p name = some d := by rw [lookup, hpr]; exact he
    exact h.trans (.entry hn (.refl hdr))

end Tree

end DufsRam.RootedFs
