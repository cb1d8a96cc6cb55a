import DufsRam.RootedFs.Resolve

/-!
# Which mutations reach a path

A mutation of the entry a path names changes one entry of one existing directory: the
entry itself, or the first missing component when its ancestors are created. A lookup
that does not touch this entry is not affected.

Results:
* `touched_of_changed`: a mutation changes a lookup only through an entry it consults.
* `unsettling_conflict_iff`: when the leases of two such paths exclude each other.
-/

namespace DufsRam.RootedFs

namespace Tree

variable (t : Tree)

/-- The entries a lookup consults, in order. Follows `walkWith`. -/
def touchedWith (follow : Bool → FileIdentity → List Component → List (FileIdentity × String)) :
    FileIdentity → List Component → List (FileIdentity × String)
  | _, [] => []
  | d, .up :: rest =>
    if d = t.root then []
    else
      match t.parentOf d with
      | some p => touchedWith follow p rest
      | none => []
  | d, .name name :: rest =>
    (d, name) ::
      match t.lookup d name with
      | none => []
      | some i =>
        match t.kindOf i with
        | .directory => touchedWith follow i rest
        | .symlink absolute target => follow absolute d (target ++ rest)
        | .other => []

def touched : ℕ → FileIdentity → List Component → List (FileIdentity × String)
  | 0 => t.touchedWith fun _ _ _ => []
  | links + 1 => t.touchedWith fun absolute d rest => if absolute then [] else touched links d rest

/-- The entries consulted to open a directory. -/
def touchedFromRoot (path : Path) : List (FileIdentity × String) :=
  t.touched maxSymlinks t.root (path.map .name)

/-- The directory entry that a mutation of `path` changes. -/
def Anchor (path : Path) (d : FileIdentity) (name : String) : Prop :=
  ∃ n, t.DeepestPrefix path.dropLast d n ∧ (path.drop n).head? = some name

/-- A directory that a mutation of the entry takes out of the tree. -/
def Detached (d : FileIdentity) (name : String) (i : FileIdentity) : Prop :=
  ∃ e, t.lookup d name = some e ∧ t.Contains e i

/-- `t'` is `t` after the entry that `path` names was created, removed or replaced. Nodes
    that were not detached keep their kind, and directories their other entries. Missing
    ancestors are made only where nothing is in their way. -/
structure Mutates (path : Path) (d : FileIdentity) (name : String) (t' : Tree) : Prop where
  anchor : t.Anchor path d name
  missing : t.physicalEntry path = none → t.lookup d name = none
  root_eq : t'.root = t.root
  parent_eq : ∀ i, t.isDirectory i = true → ¬ t.Detached d name i → t'.parentOf i = t.parentOf i
  lookup_eq : ∀ i name', t.isDirectory i = true → ¬ t.Detached d name i →
    (i, name') ≠ (d, name) → t'.lookup i name' = t.lookup i name'
  kind_eq : ∀ i name' c, t.lookup i name' = some c → ¬ t.Detached d name i →
    (i, name') ≠ (d, name) → t'.kindOf c = t.kindOf c

variable {t}

/-! ## Lookups beside the mutation -/

theorem not_detached_root {d : FileIdentity} {name : String} : ¬ t.Detached d name t.root := by
  rintro ⟨e, hlk, hc⟩
  rw [contains_root_iff.mp hc] at hlk
  obtain ⟨p, hp⟩ := isDirectory_iff_parentOf.mp (isDirectory_iff.mpr t.root_directory)
  exact (parentOf_of_lookup hlk hp).2 rfl

theorem not_detached_parent {d i p : FileIdentity} {name : String} (h : ¬ t.Detached d name i)
    (hr : i ≠ t.root) (hp : t.parentOf i = some p) : ¬ t.Detached d name p := by
  rintro ⟨e, hlk, hc⟩
  exact h ⟨e, hlk, (contains_iff_of_parent hr hp).mpr (.inr hc)⟩

/-- The only way into a detached directory is the entry that is changed. -/
theorem not_detached_child {d i c : FileIdentity} {name name' : String}
    (h : ¬ t.Detached d name i) (hch : t.lookup i name' = some c)
    (hd : t.isDirectory c = true) (hne : (i, name') ≠ (d, name)) : ¬ t.Detached d name c := by
  rintro ⟨e, hlk, hcn⟩
  obtain ⟨p, hp⟩ := isDirectory_iff_parentOf.mp hd
  obtain ⟨rfl, hr⟩ := parentOf_of_lookup hch hp
  obtain rfl | hcn := (contains_iff_of_parent hr hp).mp hcn
  · -- Both entries name one directory, so they are one entry.
    obtain ⟨rfl, -⟩ := parentOf_of_lookup hlk hp
    obtain ⟨q, es, hg, he⟩ := lookup_eq_some hch
    obtain ⟨q', es', hg', he'⟩ := lookup_eq_some hlk
    rw [hg] at hg'
    cases hg'
    obtain ⟨r, es'', hc⟩ := isDirectory_iff.mp hd
    exact hne (by rw [t.entry_unique hg he he' hc])
  · exact h ⟨e, hlk, hcn⟩

section Frame

variable {path : Path} {d : FileIdentity} {name : String} {t' : Tree}

theorem walkWith_eq_of_untouched (hm : t.Mutates path d name t')
    {fo fo' : Bool → FileIdentity → List Component → Except ErrorKind FileIdentity}
    {trace : Bool → FileIdentity → List Component → List (FileIdentity × String)}
    (hf : ∀ abs i rest, t.isDirectory i = true → ¬ t.Detached d name i →
      (d, name) ∉ trace abs i rest → fo' abs i rest = fo abs i rest)
    (rest : List Component) {i : FileIdentity} (hd : t.isDirectory i = true)
    (hl : ¬ t.Detached d name i) (hu : (d, name) ∉ t.touchedWith trace i rest) :
    t'.walkWith fo' i rest = t.walkWith fo i rest := by
  induction rest generalizing i with
  | nil => rfl
  | cons c rest ih =>
    cases c with
    | up =>
      rw [walkWith, walkWith, hm.root_eq]
      rw [touchedWith] at hu
      split_ifs at hu ⊢ with hr
      · rfl
      obtain ⟨p, hp⟩ := isDirectory_iff_parentOf.mp hd
      rw [hm.parent_eq i hd hl, hp]
      rw [hp] at hu
      have hpd : t.isDirectory p = true := by
        obtain ⟨es, hg⟩ := parentOf_eq_some.mp hp
        obtain ⟨q, es', -, hpr, -⟩ := t.parent_entry hg hr
        exact isDirectory_iff.mpr ⟨q, es', hpr⟩
      exact ih hpd (not_detached_parent hl hr hp) hu
    | name name' =>
      rw [touchedWith, List.mem_cons, not_or] at hu
      obtain ⟨hne, hu⟩ := hu
      have hne : (i, name') ≠ (d, name) := fun h => hne h.symm
      rw [walkWith, walkWith, hm.lookup_eq i name' hd hl hne]
      cases hlk : t.lookup i name' with
      | none => rfl
      | some child =>
        simp only [hlk] at hu ⊢
        rw [hm.kind_eq i name' child hlk hl hne]
        cases hk : t.kindOf child with
        | directory =>
          simp only [hk] at hu ⊢
          have hc : t.isDirectory child = true := decide_eq_true hk
          exact ih hc (not_detached_child hl hlk hc hne) hu
        | symlink abs tgt =>
          simp only [hk] at hu ⊢
          exact hf abs i _ hd hl hu
        | other => rfl

theorem walk_eq_of_untouched (hm : t.Mutates path d name t') {n : ℕ}
    (rest : List Component) {i : FileIdentity} (hd : t.isDirectory i = true)
    (hl : ¬ t.Detached d name i) (hu : (d, name) ∉ t.touched n i rest) :
    t'.walk n i rest = t.walk n i rest := by
  induction n generalizing i rest with
  | zero => exact walkWith_eq_of_untouched hm (fun _ _ _ _ _ _ => rfl) rest hd hl hu
  | succ n ih =>
    refine walkWith_eq_of_untouched hm ?_ rest hd hl hu
    intro abs i rest hd hl hu
    split_ifs at hu ⊢
    · rfl
    · exact ih rest hd hl hu

/-- A mutation that changes what a path opens has changed an entry its lookup consults. -/
theorem touched_of_changed (hm : t.Mutates path d name t') {parent : Path}
    (h : t'.openDirectoryFromRoot parent ≠ t.openDirectoryFromRoot parent) :
    (d, name) ∈ t.touchedFromRoot parent := by
  by_contra hu
  apply h
  rw [openDirectoryFromRoot, openDirectoryFromRoot, hm.root_eq]
  exact walk_eq_of_untouched hm _ (isDirectory_iff.mpr t.root_directory) not_detached_root hu

end Frame

/-! ## Unlinking -/

section Unlink

variable (t) (d : FileIdentity) (name : String)

/-- The nodes after `unlinkat(d, name)`. The node itself stays, as the inode does while it
    has another link. -/
def unlinkNodes : Table FileIdentity Node :=
  t.nodes.updateWhere (fun i _ => decide (i = d)) fun node =>
    match node with
    | .directory p entries => .directory p (entries.erase name)
    | node => node

variable {t d name}

theorem get_unlinkNodes_directory {i q : FileIdentity} {es' : Table String FileIdentity} :
    (t.unlinkNodes d name).get i = some (.directory q es') ↔
      ∃ entries, t.nodes.get i = some (.directory q entries) ∧
        es' = if i = d then entries.erase name else entries := by
  rw [unlinkNodes, Table.get_updateWhere]
  cases t.nodes.get i with
  | none => simp
  | some node =>
    by_cases hi : i = d
    · cases node <;> simp [hi, eq_comm]
    · cases node <;> simp [hi, eq_comm]

theorem get_of_get_unlinked {i : FileIdentity} {es : Table String FileIdentity}
    {name' : String} {c : FileIdentity}
    (h : (if i = d then es.erase name else es).get name' = some c) :
    es.get name' = some c := by
  split_ifs at h
  · exact (Table.get_of_get_erase h).2
  · exact h

variable (t d name)

/-- `unlinkat` of an entry that is not a directory. -/
def unlink (h : ∀ c, t.lookup d name = some c → t.isDirectory c = false) : Tree where
  root := t.root
  nodes := t.unlinkNodes d name
  root_directory := by
    obtain ⟨p, entries, hget⟩ := t.root_directory
    exact ⟨p, _, get_unlinkNodes_directory.mpr ⟨entries, hget, rfl⟩⟩
  entry_parent := by
    intro i p entries' nm c q entries'' hi hentry hc
    obtain ⟨entries, hget, rfl⟩ := get_unlinkNodes_directory.mp hi
    obtain ⟨_, hcget, -⟩ := get_unlinkNodes_directory.mp hc
    exact t.entry_parent hget (get_of_get_unlinked hentry) hcget
  entry_unique := by
    intro i p entries' nm nm' c q entries'' hi hentry hentry' hc
    obtain ⟨entries, hget, rfl⟩ := get_unlinkNodes_directory.mp hi
    obtain ⟨_, hcget, -⟩ := get_unlinkNodes_directory.mp hc
    exact t.entry_unique hget (get_of_get_unlinked hentry) (get_of_get_unlinked hentry') hcget
  parent_entry := by
    intro i p entries' hi hroot
    obtain ⟨entries, hget, -⟩ := get_unlinkNodes_directory.mp hi
    obtain ⟨q, es, nm, hparent, hentry⟩ := t.parent_entry hget hroot
    refine ⟨q, _, nm, get_unlinkNodes_directory.mpr ⟨es, hparent, rfl⟩, ?_⟩
    split_ifs with hp
    · -- The entry of a directory is not the one that is unlinked.
      have hne : nm ≠ name := by
        rintro rfl
        have hlookup : t.lookup d nm = some i := by rw [lookup, ← hp, hparent]; exact hentry
        have hdir := isDirectory_iff.mpr ⟨p, entries, hget⟩
        rw [h i hlookup] at hdir
        cases hdir
      rw [Table.get_erase, if_neg hne]
      exact hentry
    · exact hentry
  grounded := by
    obtain ⟨depth, hdepth⟩ := t.grounded
    refine ⟨depth, ?_⟩
    intro i p entries' hi hroot
    obtain ⟨entries, hget, -⟩ := get_unlinkNodes_directory.mp hi
    exact hdepth i p entries hget hroot

variable {t d name} {h : ∀ c, t.lookup d name = some c → t.isDirectory c = false}

/-- Every node stays what it is and where it is. -/
theorem node_unlink (i : FileIdentity) : (t.unlink d name h).parentOf i = t.parentOf i ∧
    (t.unlink d name h).kindOf i = t.kindOf i := by
  have hn : (t.unlink d name h).nodes = t.unlinkNodes d name := rfl
  simp only [parentOf, kindOf, hn, unlinkNodes, Table.get_updateWhere]
  cases t.nodes.get i with
  | none => exact ⟨rfl, rfl⟩
  | some node => by_cases hi : i = d <;> cases node <;> simp [hi]

theorem lookup_unlink (i : FileIdentity) (name' : String) : (t.unlink d name h).lookup i name' =
      if i = d ∧ name' = name then none else t.lookup i name' := by
  have hn : (t.unlink d name h).nodes = t.unlinkNodes d name := rfl
  rw [lookup, lookup, hn, unlinkNodes, Table.get_updateWhere]
  cases t.nodes.get i with
  | none => simp
  | some node =>
    by_cases hi : i = d
    · cases node <;> simp [hi]
    · cases node <;> simp [hi]

/-- Unlinking the entry a path names is a mutation of that path. -/
theorem mutates_unlink {path : Path} (h : ∀ c, t.lookup d name = some c → t.isDirectory c = false)
    (he : t.physicalEntry path = some (d, name)) :
    t.Mutates path d name (t.unlink d name h) where
  anchor := by
    obtain ⟨hnm, ho⟩ := physicalEntry_eq_some he
    refine ⟨path.dropLast.length, .of_opens ho, ?_⟩
    have hp : path.dropLast ++ [name] = path := List.dropLast_append_getLast? name hnm
    calc (path.drop path.dropLast.length).head? =
          ((path.dropLast ++ [name]).drop path.dropLast.length).head? := by rw [hp]
      _ = some name := by rw [List.drop_left]; rfl
  missing hn := by rw [he] at hn; cases hn
  root_eq := rfl
  parent_eq i _ _ := (node_unlink i).1
  lookup_eq i name' _ _ hne := by
    rw [lookup_unlink, if_neg]
    rintro ⟨rfl, rfl⟩
    exact hne rfl
  kind_eq i name' c _ _ _ := (node_unlink c).2

end Unlink

/-! ## A link with two spellings -/

/-- The checks behind `Tree`, with inode numbers that grow away from the root. -/
def wellFormed (root : FileIdentity) (nodes : Table FileIdentity Node) : Bool :=
  (match nodes.get root with | some (.directory _ _) => true | _ => false) &&
  nodes.rows.all fun (d, node) =>
    match node with
    | .directory p entries =>
      (decide (d = root) || (decide (p.inode < d.inode) &&
        match nodes.get p with
        | some (.directory _ siblings) => siblings.rows.any fun row => decide (row.2 = d)
        | _ => false)) &&
      entries.rows.all fun (name, c) =>
        match nodes.get c with
        | some (.directory q _) => decide (q = d) && decide (c ≠ root) &&
          entries.rows.all fun (name', c') => decide (c' = c → name' = name)
        | _ => true
    | _ => true

/-- A tree whose shape has been checked. -/
def ofNodes (root : FileIdentity) (nodes : Table FileIdentity Node)
    (h : wellFormed root nodes = true) : Tree where
  root := root
  nodes := nodes
  root_directory := by
    rw [wellFormed, Bool.and_eq_true] at h
    have hroot := h.1
    split at hroot
    · next p entries hget => exact ⟨p, entries, hget⟩
    · cases hroot
  entry_parent := by
    intro d p entries name c q entries' hd hentry hc
    rw [wellFormed, Bool.and_eq_true, List.all_eq_true] at h
    have hrow := h.2 _ (Table.get_eq_some_iff.mp hd)
    simp only [Bool.and_eq_true, List.all_eq_true] at hrow
    have hchild := hrow.2 _ (Table.get_eq_some_iff.mp hentry)
    simp only [hc, Bool.and_eq_true, decide_eq_true_iff] at hchild
    exact hchild.1
  entry_unique := by
    intro d p entries name name' c q entries' hd hentry hentry' hc
    rw [wellFormed, Bool.and_eq_true, List.all_eq_true] at h
    have hrow := h.2 _ (Table.get_eq_some_iff.mp hd)
    simp only [Bool.and_eq_true, List.all_eq_true] at hrow
    have hchild := hrow.2 _ (Table.get_eq_some_iff.mp hentry')
    simp only [hc, Bool.and_eq_true, List.all_eq_true, decide_eq_true_iff] at hchild
    exact hchild.2 _ (Table.get_eq_some_iff.mp hentry) rfl
  parent_entry := by
    intro d p entries hd hroot
    rw [wellFormed, Bool.and_eq_true, List.all_eq_true] at h
    have hrow := h.2 _ (Table.get_eq_some_iff.mp hd)
    simp only [Bool.and_eq_true, Bool.or_eq_true, decide_eq_true_iff, hroot, false_or] at hrow
    have hparent := hrow.1.2
    split at hparent
    · next q siblings hget =>
      obtain ⟨⟨name, c⟩, hmem, hc⟩ := List.any_eq_true.mp hparent
      have hc : c = d := of_decide_eq_true hc
      exact ⟨q, siblings, name, hget, Table.get_eq_some_iff.mpr (hc ▸ hmem)⟩
    · cases hparent
  grounded := by
    refine ⟨FileIdentity.inode, ?_⟩
    intro d p entries hd hroot
    rw [wellFormed, Bool.and_eq_true, List.all_eq_true] at h
    have hrow := h.2 _ (Table.get_eq_some_iff.mp hd)
    simp only [Bool.and_eq_true, Bool.or_eq_true, decide_eq_true_iff, hroot, false_or] at hrow
    exact hrow.1.1

/-- `m/link -> ../d`, and `m` is also reached through `alias -> m`. -/
def linkTree : Tree :=
  ofNodes ⟨1, 1⟩
    (.put (.put (.put (.put (.put .empty
      ⟨1, 1⟩ (.directory ⟨1, 1⟩ (.put (.put (.put .empty "m" ⟨1, 2⟩) "d" ⟨1, 3⟩) "alias" ⟨1, 4⟩)))
      ⟨1, 2⟩ (.directory ⟨1, 1⟩ (.put .empty "link" ⟨1, 5⟩)))
      ⟨1, 3⟩ (.directory ⟨1, 1⟩ .empty))
      ⟨1, 4⟩ (.symlink false [.name "m"]))
      ⟨1, 5⟩ (.symlink false [.up, .name "d"])) (by decide)

/-- The tree without `m/link`. -/
def unlinkedTree : Tree := linkTree.unlink ⟨1, 2⟩ "link" fun c hc => by
  have hlink : linkTree.lookup ⟨1, 2⟩ "link" = some ⟨1, 5⟩ := by decide
  rw [hlink] at hc
  cases hc
  decide

/-! ## Mutations and leases -/

/-- The change moves the directory in which the entry of `path` lives, or decides whether
    there is one. -/
def Unsettles (t t' : Tree) (path : Path) : Prop :=
  (t'.openDirectoryFromRoot path.dropLast).toOption ≠
    (t.openDirectoryFromRoot path.dropLast).toOption

/-- **Mutations and leases.** A mutation of `a` that unsettles `b` has changed an entry the
    lookup of `b`'s parent consults. The keys conflict exactly when the spellings are in
    prefix relation or the entries overlap in the tree. A lookup can also consult the entry
    on its way elsewhere, through a link, and then neither need be so. -/
theorem unsettling_conflict_iff {t t' : Tree} {a b : Path} {d : FileIdentity} {name : String}
    {ka kb : ResolvedPathKey} (hm : t.Mutates a d name t') (hchange : Unsettles t t' b)
    (ha : t.resolvedPathKey a = .ok ka) (hb : t.resolvedPathKey b = .ok kb) :
    (d, name) ∈ t.touchedFromRoot b.dropLast ∧
    (pathKeysConflict ⟨a, ka⟩ ⟨b, kb⟩ = true ↔
      a <+: b ∨ b <+: a ∨ t.Overlap a b ∨ t.Overlap b a) := by
  refine ⟨?_, ?_⟩
  · apply touched_of_changed hm
    intro heq
    exact hchange (by rw [heq])
  · simp only [pathKeysConflict, Bool.or_eq_true, startsWith_iff, conflict_iff_overlap ha hb]
    tauto

/-- Unlinking `m/link` unsettles `m/link/f`, under one spelling. -/
theorem unsettling_conflict_iff_link :
    ((⟨1, 2⟩ : FileIdentity), "link") ∈ linkTree.touchedFromRoot ["m", "link"] ∧
    (pathKeysConflict ⟨["m", "link"], ⟨⟨1, 2⟩, ["link"], [⟨1, 1⟩, ⟨1, 2⟩], none⟩⟩
        ⟨["m", "link", "f"], ⟨⟨1, 3⟩, ["f"], [⟨1, 1⟩, ⟨1, 3⟩], none⟩⟩ = true ↔
      ["m", "link"] <+: ["m", "link", "f"] ∨ ["m", "link", "f"] <+: ["m", "link"] ∨
      linkTree.Overlap ["m", "link"] ["m", "link", "f"] ∨
      linkTree.Overlap ["m", "link", "f"] ["m", "link"]) := by
  have hm : linkTree.Mutates ["m", "link"] ⟨1, 2⟩ "link" unlinkedTree := mutates_unlink _ rfl
  have hc : Unsettles linkTree unlinkedTree ["m", "link", "f"] := by
    unfold Unsettles
    decide
  exact unsettling_conflict_iff hm hc rfl rfl

/-- Unlinking the same link as `alias/link` unsettles `m/link/f` too, and the keys do not
    conflict: the key of `m/link/f` does not record that its lookup went through the link. -/
theorem unsettled_without_conflict :
    ∃ ka kb, linkTree.Mutates ["alias", "link"] ⟨1, 2⟩ "link" unlinkedTree ∧
      Unsettles linkTree unlinkedTree ["m", "link", "f"] ∧
      linkTree.resolvedPathKey ["alias", "link"] = .ok ka ∧
      linkTree.resolvedPathKey ["m", "link", "f"] = .ok kb ∧
      pathKeysConflict ⟨["alias", "link"], ka⟩ ⟨["m", "link", "f"], kb⟩ = false :=
  ⟨⟨⟨1, 2⟩, ["link"], [⟨1, 1⟩, ⟨1, 2⟩], none⟩, ⟨⟨1, 3⟩, ["f"], [⟨1, 1⟩, ⟨1, 3⟩], none⟩,
    mutates_unlink _ rfl, by unfold Unsettles; decide, rfl, rfl, by decide⟩

end Tree

end DufsRam.RootedFs
