import DufsRam.RootedFs.Mutation

/-!
# The deepest prefix of a path, with permissions

`resolve_deepest_parent_prefix` (`rooted_fs.rs`, lines 908-947) over a tree whose directories need
not be readable or searchable. A lookup needs the search permission of every directory it goes
through, and `O_RDONLY` the read permission of the one it ends in. So a directory that can be
searched but not read fails as a prefix while longer prefixes open, and the binary search, which
takes the failure for the end of what opens, stops short.

Results:
* `openDirectoryFromRoot_ofTree`: with all permissions this is the lookup of `RootedFs.Tree`.
* `deepest_prefix_iff`: when the search is right.
-/

namespace DufsRam.RootedFs

namespace AccessTree

variable (t : AccessTree)

/-- The directory that a path leads to. -/
def walkFromRoot (path : Path) : Except ErrorKind FileIdentity :=
  t.walk Tree.maxSymlinks t.tree.root (path.map .name)

/-- `open_directory_from_root` (lines 2668-2682): `O_RDONLY` on what the path leads to. -/
def openDirectoryFromRoot (path : Path) : Except ErrorKind FileIdentity :=
  match t.walkFromRoot path with
  | .ok d => if t.readable d then .ok d else .error .permissionDenied
  | .error e => .error e

/-- The probe of the first `n` components. For none of them the root is duplicated, not opened
    (lines 919 and 931). -/
def openResolvedPathPrefix (components : Path) : ℕ → Except ErrorKind FileIdentity
  | 0 => .ok t.tree.root
  | n + 1 => t.openDirectoryFromRoot (components.take (n + 1))

/-- `resolve_deepest_parent_prefix` (lines 914-947). -/
def resolveDeepestParentPrefix (components : Path) : Except ErrorKind (FileIdentity × ℕ) :=
  if components = [] then .ok (t.tree.root, 0)
  else
    match t.openDirectoryFromRoot components with
    | .ok directory => .ok (directory, components.length)
    | .error e =>
      if unresolvedPathError e then
        Bisect.bisect (t.openResolvedPathPrefix components) unresolvedPathError components.length
          0 components.length t.tree.root
      else .error e

/-- Every prefix from the longest to the shortest, with the same treatment of errors. -/
def resolveExhaustively (components : Path) : Except ErrorKind (FileIdentity × ℕ) :=
  Bisect.descend (t.openResolvedPathPrefix components) unresolvedPathError components.length
    t.tree.root

/-! ## All permissions -/

/-- With all permissions the lookup is the one of `Tree`. -/
theorem openDirectoryFromRoot_ofTree (t : Tree) (path : Path) :
    (ofTree t).openDirectoryFromRoot path = t.openDirectoryFromRoot path := by
  have hw : (ofTree t).walkFromRoot path = t.openDirectoryFromRoot path := by
    rw [walkFromRoot, walk_ofTree]
    rfl
  rw [openDirectoryFromRoot, hw]
  cases t.openDirectoryFromRoot path with
  | ok d => rfl
  | error e => rfl

/-! ## Longer prefixes -/

variable {t} {d : FileIdentity} {e : ErrorKind} {components : Path}

/-- A lookup that fails on the way fails in the same way for every longer path. -/
theorem walkFromRoot_error_mono {p q : Path} (hpq : p <+: q) (h : t.walkFromRoot p = .error e) :
    t.walkFromRoot q = .error e := by
  obtain ⟨r, rfl⟩ := hpq
  rw [walkFromRoot, List.map_append]
  exact walk_error_append _ _ h

theorem openDirectoryFromRoot_eq_ok {path : Path} :
    t.openDirectoryFromRoot path = .ok d ↔ t.walkFromRoot path = .ok d ∧ t.readable d = true := by
  unfold openDirectoryFromRoot
  cases t.walkFromRoot path with
  | error e => simp
  | ok d' =>
    simp only [Except.ok.injEq]
    split_ifs with hr
    · constructor
      · rintro ⟨⟩
        exact ⟨rfl, hr⟩
      · rintro ⟨rfl, -⟩
        rfl
    · constructor
      · intro h
        exact nomatch h
      · rintro ⟨rfl, h⟩
        exact absurd h hr

/-- An error that ends the search comes from the way, and so every longer prefix has it too. -/
theorem openDirectoryFromRoot_hard_mono {p q : Path} (hpq : p <+: q)
    (h : t.openDirectoryFromRoot p = .error e) (hh : unresolvedPathError e = false) :
    t.openDirectoryFromRoot q = .error e := by
  have hw : t.walkFromRoot p = .error e := by
    unfold openDirectoryFromRoot at h
    split at h
    · split_ifs at h
      obtain ⟨⟩ := h
      exact nomatch hh
    · rename_i e' he
      rw [he, Except.error.inj h]
  rw [openDirectoryFromRoot, walkFromRoot_error_mono hpq hw]

/-! ## The two searches -/

/-- The whole path cannot be opened, and its first `n` components are the longest part that can. -/
structure Deepest (t : AccessTree) (components : Path) (n : ℕ) : Prop where
  lt : n < components.length
  opens : ∃ d, t.openResolvedPathPrefix components n = .ok d
  fails : ∀ m, n < m → m ≤ components.length →
    ∃ e, t.openResolvedPathPrefix components m = .error e ∧ unresolvedPathError e = true

theorem openResolvedPathPrefix_length (h : components ≠ []) :
    t.openResolvedPathPrefix components components.length =
      t.openDirectoryFromRoot components := by
  cases components with
  | nil => exact absurd rfl h
  | cons name rest =>
    rw [List.length_cons, openResolvedPathPrefix, ← List.length_cons, List.take_length]

/-- If the whole path fails softly then so does every prefix that fails. -/
theorem soft_of_soft {e' : ErrorKind} {m : ℕ}
    (hf : t.openDirectoryFromRoot components = .error e) (hs : unresolvedPathError e = true)
    (h : t.openResolvedPathPrefix components m = .error e') : unresolvedPathError e' = true := by
  cases m with
  | zero => exact nomatch h
  | succ m =>
    by_contra hh
    rw [Bool.not_eq_true] at hh
    have hw := openDirectoryFromRoot_hard_mono (List.take_prefix (m + 1) components) h hh
    rw [hf] at hw
    rw [Except.error.inj hw, hh] at hs
    exact nomatch hs

/-- A whole path that fails softly has a longest part that opens. -/
theorem exists_deepest (hne : components ≠ [])
    (hf : t.openDirectoryFromRoot components = .error e) (hs : unresolvedPathError e = true) :
    ∃ n, t.Deepest components n := by
  obtain ⟨n, d, hle, ho, hfl⟩ := Bisect.exists_last_success
    (show t.openResolvedPathPrefix components 0 = .ok t.tree.root from rfl) components.length
  refine ⟨n, Nat.lt_of_le_of_ne hle fun hl => ?_, ⟨d, ho⟩, fun m hm hm' => ?_⟩
  · rw [hl, openResolvedPathPrefix_length hne, hf] at ho
    exact nomatch ho
  · obtain ⟨e', he'⟩ := hfl m hm hm'
    exact ⟨e', he', soft_of_soft hf hs he'⟩

theorem Deepest.resolveExhaustively_eq {n : ℕ} (h : t.Deepest components n)
    (hd : t.openResolvedPathPrefix components n = .ok d) :
    t.resolveExhaustively components = .ok (d, n) :=
  Bisect.descend_eq_ok h.lt.le rfl hd h.fails

/-- The binary search where there is something to search for. -/
theorem Deepest.resolve_eq_iff {n : ℕ} (h : t.Deepest components n) :
    t.resolveDeepestParentPrefix components = t.resolveExhaustively components ↔
      ∀ m ∈ Bisect.midpoints components.length 0 components.length n, m ≤ n →
        ∃ d, t.openResolvedPathPrefix components m = .ok d := by
  obtain ⟨d, hd⟩ := h.opens
  have hlt := h.lt
  have hne : components ≠ [] := List.length_pos_iff.mp (by omega)
  obtain ⟨e, hf, hs⟩ := h.fails components.length hlt le_rfl
  rw [openResolvedPathPrefix_length hne] at hf
  rw [h.resolveExhaustively_eq hd, resolveDeepestParentPrefix, if_neg hne, hf]
  simp only [hs, if_true]
  refine Bisect.bisect_eq_iff (by omega) (Nat.zero_le n) hlt rfl hd (fun m hm hm' => ?_)
    fun m e' _ he' => soft_of_soft hf hs he'
  obtain ⟨e', he', -⟩ := h.fails m hm hm'.le
  exact ⟨e', he'⟩

/-- Where the whole path opens, or fails for good, the two searches are one probe. -/
theorem resolve_eq_of_not_deepest (h : ∀ n, ¬t.Deepest components n) :
    t.resolveDeepestParentPrefix components = t.resolveExhaustively components := by
  by_cases hne : components = []
  · subst hne
    rfl
  obtain ⟨k, hk⟩ : ∃ k, components.length = k + 1 :=
    Nat.exists_eq_succ_of_ne_zero (by simpa using hne)
  have hl := openResolvedPathPrefix_length (t := t) hne
  rw [hk] at hl
  rw [resolveDeepestParentPrefix, if_neg hne, resolveExhaustively, hk, Bisect.descend, hl]
  cases hf : t.openDirectoryFromRoot components with
  | ok d => rfl
  | error e =>
    cases hs : unresolvedPathError e with
    | false => simp only [hs, Bool.false_eq_true, if_false]
    | true =>
      obtain ⟨n, hn⟩ := exists_deepest hne hf hs
      exact absurd hn (h n)

/-- A part of a path that opens is reached, and it opens if it can be read. -/
theorem openResolvedPathPrefix_iff {m n : ℕ} (hp : 0 < m) (hle : m ≤ n)
    (hn : t.openResolvedPathPrefix components n = .ok d) :
    (∃ d', t.openResolvedPathPrefix components m = .ok d') ↔
      ∀ d', t.walkFromRoot (components.take m) = .ok d' → t.readable d' = true := by
  obtain ⟨m, rfl⟩ := Nat.exists_eq_succ_of_ne_zero hp.ne'
  obtain ⟨n, rfl⟩ := Nat.exists_eq_succ_of_ne_zero (Nat.ne_of_gt (hp.trans_le hle))
  have hr := (openDirectoryFromRoot_eq_ok.mp hn).1
  constructor
  · rintro ⟨d', hd'⟩ d'' hd''
    obtain ⟨hw, hrd⟩ := openDirectoryFromRoot_eq_ok.mp hd'
    rw [← Except.ok.inj (hw.symm.trans hd'')]
    exact hrd
  · intro hrd
    cases hw : t.walkFromRoot (components.take (m + 1)) with
    | error e =>
      rw [walkFromRoot_error_mono (List.take_prefix_take_left hle) hw] at hr
      exact nomatch hr
    | ok d' => exact ⟨d', openDirectoryFromRoot_eq_ok.mpr ⟨hw, hrd d' hw⟩⟩

/-- **The deepest prefix.** The binary search returns what the exhaustive search returns exactly if
    it does not come, before the longest part of the path that opens, to a directory that cannot be
    read. -/
theorem deepest_prefix_iff (t : AccessTree) (components : Path) :
    t.resolveDeepestParentPrefix components = t.resolveExhaustively components ↔
      ∀ n, t.Deepest components n →
        ∀ m ∈ Bisect.midpoints components.length 0 components.length n, m ≤ n →
          ∀ d, t.walkFromRoot (components.take m) = .ok d → t.readable d = true := by
  constructor
  · intro hs n hn m hm hle
    obtain ⟨d, hd⟩ := hn.opens
    have ho := hn.resolve_eq_iff.mp hs m hm hle
    exact (openResolvedPathPrefix_iff (Bisect.lt_of_mem_midpoints hm) hle hd).mp ho
  · intro hr
    by_cases hdp : ∃ n, t.Deepest components n
    · obtain ⟨n, hn⟩ := hdp
      obtain ⟨d, hd⟩ := hn.opens
      refine hn.resolve_eq_iff.mpr fun m hm hle => ?_
      exact (openResolvedPathPrefix_iff (Bisect.lt_of_mem_midpoints hm) hle hd).mpr
        (hr n hn m hm hle)
    · exact resolve_eq_of_not_deepest (not_exists.mp hdp)

/-- The directory `a` can be searched but not read; `a/b` can be opened. -/
def throughTree : AccessTree where
  tree := Tree.ofNodes ⟨1, 1⟩
    (.put (.put (.put .empty
      ⟨1, 1⟩ (.directory ⟨1, 1⟩ (.put .empty "a" ⟨1, 2⟩)))
      ⟨1, 2⟩ (.directory ⟨1, 1⟩ (.put .empty "b" ⟨1, 3⟩)))
      ⟨1, 3⟩ (.directory ⟨1, 2⟩ .empty)) (by decide)
  readable i := decide (i ≠ ⟨1, 2⟩)
  searchable _ := true

/-- For `a/b/c` the search stops at the root, although `a/b` opens. -/
theorem binary_search_stops_short :
    throughTree.resolveDeepestParentPrefix ["a", "b", "c"] = .ok (⟨1, 1⟩, 0) ∧
      throughTree.resolveExhaustively ["a", "b", "c"] = .ok (⟨1, 3⟩, 2) := by
  decide

end AccessTree

end DufsRam.RootedFs
