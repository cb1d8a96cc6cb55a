import Mathlib

/-!
# Path keys and their conflict relation

Model of the keys that path leases record (`rooted_fs.rs`, `ResolvedPathKey`, and
`path_coordinator.rs`, `LeaseKey`) and of the functions that compare them
(`path_coordinator.rs`, lines 576-671).

A lexical path is the list of its components below the shared root, as
`normalize_key` leaves it, so `Path::starts_with` is the prefix order on lists.

Results:
* `anchoredTailIsPrefix_iff`: the zip loop decides the prefix order on tails.
* `resolvedPathsConflict_comm`, `pathKeysConflict_comm`, `pathsConflict_comm`: a
  conflict does not depend on which side asks.
-/

namespace DufsRam

/-- A normalised lexical path: its components below the shared root. -/
abbrev Path := List String

/-- `Path::starts_with`: `ancestor` is `path` or one of its lexical ancestors. -/
def startsWith (path ancestor : Path) : Bool := ancestor.isPrefixOf path

@[simp] theorem startsWith_iff {path ancestor : Path} :
    startsWith path ancestor = true ↔ ancestor <+: path :=
  List.isPrefixOf_iff_prefix

/-- Device and inode number of a file. -/
structure FileIdentity where
  device : ℕ
  inode : ℕ
deriving DecidableEq

/-- `ResolvedPathKey` (`rooted_fs.rs`, lines 267-279). -/
structure ResolvedPathKey where
  resolvedParent : FileIdentity
  unresolvedTail : List String
  ancestorDirectories : List FileIdentity
  targetDirectory : Option FileIdentity
deriving DecidableEq

/-- `conservative_path_key` (`rooted_fs.rs`, lines 572-579). -/
def conservativePathKey (rootIdentity : FileIdentity) : ResolvedPathKey where
  resolvedParent := rootIdentity
  unresolvedTail := []
  ancestorDirectories := [rootIdentity]
  targetDirectory := some rootIdentity

/-- `LeaseKey` (`path_coordinator.rs`, lines 40-44). -/
structure LeaseKey where
  lexical : Path
  resolved : ResolvedPathKey
deriving DecidableEq

/-! ## Comparing resolved keys -/

/-- `anchored_tail_is_prefix` (`path_coordinator.rs`, lines 663-671). -/
def anchoredTailIsPrefix (left right : ResolvedPathKey) : Bool :=
  decide (left.resolvedParent = right.resolvedParent) &&
    decide (left.unresolvedTail.length ≤ right.unresolvedTail.length) &&
    (left.unresolvedTail.zip right.unresolvedTail).all fun names => decide (names.1 = names.2)

/-- `is_some_and(|identity| ….ancestor_directories.contains(&identity))`: the target
    directory of `left` lies on the ancestor chain of `right`. -/
def targetIsAncestor (left right : ResolvedPathKey) : Bool :=
  left.targetDirectory.any fun identity => decide (identity ∈ right.ancestorDirectories)

/-- `resolved_paths_conflict` (lines 641-650). -/
def resolvedPathsConflict (left right : ResolvedPathKey) : Bool :=
  anchoredTailIsPrefix left right || anchoredTailIsPrefix right left ||
    targetIsAncestor left right || targetIsAncestor right left

theorem zip_all_eq_iff {l r : List String} (hl : l.length ≤ r.length) :
    ((l.zip r).all fun ns => decide (ns.1 = ns.2)) = true ↔ l <+: r := by
  induction l generalizing r with
  | nil => simp
  | cons a l ih =>
    cases r with
    | nil => simp at hl
    | cons b r =>
      rw [List.length_cons, List.length_cons, Nat.add_le_add_iff_right] at hl
      rw [List.zip_cons_cons, List.all_cons, Bool.and_eq_true, ih hl, List.cons_prefix_cons,
        decide_eq_true_iff]

theorem anchoredTailIsPrefix_iff {left right : ResolvedPathKey} :
    anchoredTailIsPrefix left right = true ↔
      left.resolvedParent = right.resolvedParent ∧
        left.unresolvedTail <+: right.unresolvedTail := by
  simp only [anchoredTailIsPrefix, Bool.and_eq_true, decide_eq_true_iff, and_assoc]
  refine and_congr_right fun _ => ⟨fun ⟨hl, ha⟩ => (zip_all_eq_iff hl).mp ha,
    fun hp => ⟨hp.length_le, (zip_all_eq_iff hp.length_le).mpr hp⟩⟩

theorem targetIsAncestor_iff {left right : ResolvedPathKey} : targetIsAncestor left right = true ↔
      ∃ fid, left.targetDirectory = some fid ∧
        fid ∈ right.ancestorDirectories := by
  simp [targetIsAncestor, Option.any_eq_true]

theorem resolvedPathsConflict_comm (left right : ResolvedPathKey) :
    resolvedPathsConflict left right = resolvedPathsConflict right left := by
  unfold resolvedPathsConflict
  cases anchoredTailIsPrefix left right <;> cases anchoredTailIsPrefix right left <;>
    cases targetIsAncestor left right <;> cases targetIsAncestor right left <;> rfl

/-! ## Comparing lease keys -/

/-- Equal or ancestor-related lexical paths, in either direction. -/
def lexicallyConflict (left right : Path) : Bool := startsWith left right || startsWith right left

/-- `path_keys_conflict` (lines 584-588). -/
def pathKeysConflict (left right : LeaseKey) : Bool :=
  startsWith left.lexical right.lexical || startsWith right.lexical left.lexical ||
    resolvedPathsConflict left.resolved right.resolved

/-- `paths_conflict` (lines 576-582). -/
def pathsConflict (left right : List LeaseKey) : Bool :=
  left.any fun leftPath => right.any fun rightPath => pathKeysConflict leftPath rightPath

theorem pathKeysConflict_comm (left right : LeaseKey) :
    pathKeysConflict left right = pathKeysConflict right left := by
  rw [pathKeysConflict, pathKeysConflict, resolvedPathsConflict_comm,
    Bool.or_comm (startsWith left.lexical right.lexical)]

theorem pathsConflict_iff {left right : List LeaseKey} : pathsConflict left right = true ↔
      ∃ l ∈ left, ∃ r ∈ right, pathKeysConflict l r = true := by
  simp [pathsConflict]

theorem pathsConflict_comm (left right : List LeaseKey) :
    pathsConflict left right = pathsConflict right left := by
  rw [Bool.eq_iff_iff, pathsConflict_iff, pathsConflict_iff]
  constructor
  · rintro ⟨l, hl, r, hr, h⟩
    exact ⟨r, hr, l, hl, by rwa [pathKeysConflict_comm]⟩
  · rintro ⟨r, hr, l, hl, h⟩
    exact ⟨l, hl, r, hr, by rwa [pathKeysConflict_comm]⟩

end DufsRam
