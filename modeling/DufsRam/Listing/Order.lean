import DufsRam.Listing.Sort

/-!
# The order of the listing

`compare_path_items` (`listing.rs`, lines 1102-1113) orders the items of a directory: the
directories first, then by the sort key, then by name; `desc` reverses the result. The natural
comparison of names, `alphanumeric_sort::compare_str`, is a parameter. The comparison of names
as strings, by their bytes, is the comparison by code points. The field `revision` of an item
plays no part in the order.

Results:
* `transCmp_comparePathItems`: every one of the comparators is a total preorder.
* `comparePathItems_eq_eq`: it tells items with different names apart.
* `sorted_listing_canonical`: the sorted listing depends on the set of items only, and the
  descending one is its reverse.
-/

namespace DufsRam.Listing

open Effect
open Std (TransCmp OrientedCmp LawfulEqCmp)

/-! ## Model -/

/-- `PathType` (`listing.rs`, lines 1521-1526). -/
inductive PathType
  | dir
  | symlinkDir
  | file
  | symlinkFile
deriving DecidableEq

/-- `to_value` of `PathType::cmp` (`listing.rs`, lines 1530-1536). -/
def PathType.toValue : PathType → ℕ
  | .dir | .symlinkDir => 0
  | .file | .symlinkFile => 1

/-- `PathType::cmp` (`listing.rs`, lines 1529-1538). -/
def PathType.cmp (self other : PathType) : Ordering :=
  compare self.toValue other.toValue

/-- `PathItem` (`listing.rs`, lines 1480-1488). -/
structure PathItem where
  pathType : PathType
  sortName : String
  name : String
  mtime : ℕ
  size : ℕ
deriving DecidableEq

section comparators

variable (compareStr : String → String → Ordering)

/-- `PathItem::sort_by_name` (`listing.rs`, lines 1491-1497). -/
def PathItem.sortByName (self other : PathItem) : Ordering :=
  match self.pathType.cmp other.pathType with
  | .eq => (compareStr self.sortName other.sortName).then (compare self.name other.name)
  | value => value

/-- `PathItem::sort_by_mtime` (`listing.rs`, lines 1499-1507). -/
def PathItem.sortByMtime (self other : PathItem) : Ordering :=
  match self.pathType.cmp other.pathType with
  | .eq => (compare self.mtime other.mtime).then (self.sortByName compareStr other)
  | value => value

/-- `PathItem::sort_by_size` (`listing.rs`, lines 1509-1517). -/
def PathItem.sortBySize (self other : PathItem) : Ordering :=
  match self.pathType.cmp other.pathType with
  | .eq => (compare self.size other.size).then (self.sortByName compareStr other)
  | value => value

/-- The match on the sort key in `compare_path_items` (`listing.rs`, lines 1103-1107). -/
def compareByKey (sort : String) (left right : PathItem) : Ordering :=
  match sort with
  | "mtime" => left.sortByMtime compareStr right
  | "size" => left.sortBySize compareStr right
  | _ => left.sortByName compareStr right

/-- `compare_path_items` (`listing.rs`, lines 1102-1113). -/
def comparePathItems (sort order : String) (left right : PathItem) : Ordering :=
  let ordering := compareByKey compareStr sort left right
  if order = "desc" then ordering.swap else ordering

/-- The call of the sort in `sort_path_items_interruptibly` (`listing.rs`, lines 1246-1254). -/
def sortPathItems (active : ℕ → Bool) (fuel : ℕ) (reserved : Bool × Bool) (sort order : String)
    (paths : List PathItem) : Except Stop Unit × List PathItem :=
  let (answer, state) := stableSortByInterruptible (comparePathItems compareStr sort order) active
    fuel reserved paths.get
  (answer, List.ofFn state.values)

/-- Some call of the sort on `paths`, with whatever callback and memory, succeeds with
    `result`. -/
def SortsTo (sort order : String) (paths result : List PathItem) : Prop :=
  ∃ active fuel reserved, paths.length ≤ fuel ∧
    sortPathItems compareStr active fuel reserved sort order paths = (.ok (), result)

end comparators

/-! ## The comparators are total preorders -/

section orders

variable {α β : Type} {cmp : β → β → Ordering} {first second : α → α → Ordering}

/-- A comparison of keys is a total preorder if the comparison of their values is one. -/
theorem transCmp_key [TransCmp cmp] (key : α → β) : TransCmp fun a b => cmp (key a) (key b) where
  eq_swap := OrientedCmp.eq_swap
  isLE_trans := TransCmp.isLE_trans

/-- So is a comparison by one criterion first and by another second. -/
theorem transCmp_match (hf : TransCmp first) (hs : TransCmp second) :
    TransCmp fun a b => match first a b with
      | .eq => second a b
      | value => value := by
  have hl : TransCmp (compareLex first second) := inferInstance
  convert hl using 3 with a b
  rw [compareLex]
  cases first a b <;> rfl

theorem transCmp_then (hf : TransCmp first) (hs : TransCmp second) :
    TransCmp fun a b => (first a b).then (second a b) :=
  inferInstanceAs (TransCmp (compareLex first second))

theorem match_eq_eq {x y : Ordering} (h : (match x with
      | .eq => y
      | value => value) = .eq) : y = .eq := by
  cases x <;> simp_all

end orders

variable {compareStr : String → String → Ordering}

theorem transCmp_pathType : TransCmp fun a b : PathItem => a.pathType.cmp b.pathType :=
  transCmp_key fun item : PathItem => item.pathType.toValue

theorem transCmp_sortByName [TransCmp compareStr] : TransCmp (PathItem.sortByName compareStr) :=
  transCmp_match transCmp_pathType
    (transCmp_then (transCmp_key PathItem.sortName) (transCmp_key PathItem.name))

theorem transCmp_compareByKey (compareStr : String → String → Ordering) [TransCmp compareStr]
    (sort : String) : TransCmp (compareByKey compareStr sort) := by
  unfold compareByKey
  split
  · exact transCmp_match transCmp_pathType
      (transCmp_then (transCmp_key PathItem.mtime) transCmp_sortByName)
  · exact transCmp_match transCmp_pathType
      (transCmp_then (transCmp_key PathItem.size) transCmp_sortByName)
  · exact transCmp_sortByName

/-- Every comparator of the listing is a total preorder. -/
theorem transCmp_comparePathItems (compareStr : String → String → Ordering) [TransCmp compareStr]
    (sort order : String) : TransCmp (comparePathItems compareStr sort order) := by
  have hk := transCmp_compareByKey compareStr sort
  unfold comparePathItems
  split
  · have hf : TransCmp fun a b => compareByKey compareStr sort b a := TransCmp.opposite
    convert hf using 3 with a b
    exact OrientedCmp.eq_swap.symm
  · exact hk

/-! ## Different names -/

theorem sortByName_eq_eq {a b : PathItem} (h : a.sortByName compareStr b = .eq) :
    a.name = b.name := by
  have hn := match_eq_eq h
  rw [Ordering.then_eq_eq] at hn
  exact LawfulEqCmp.eq_of_compare hn.2

theorem compareByKey_eq_eq {sort : String} {a b : PathItem}
    (h : compareByKey compareStr sort a b = .eq) : a.name = b.name := by
  unfold compareByKey at h
  split at h
  · exact sortByName_eq_eq (Ordering.then_eq_eq.mp (match_eq_eq h)).2
  · exact sortByName_eq_eq (Ordering.then_eq_eq.mp (match_eq_eq h)).2
  · exact sortByName_eq_eq h

/-- Items with different names are told apart. -/
theorem comparePathItems_eq_eq {sort order : String} {a b : PathItem}
    (h : comparePathItems compareStr sort order a b = .eq) : a.name = b.name := by
  unfold comparePathItems at h
  split at h
  · exact compareByKey_eq_eq (Ordering.swap_eq_eq.mp h)
  · exact compareByKey_eq_eq h

/-! ## The sorted listing -/

section sorted

variable [TransCmp compareStr] {sort order : String} {paths result : List PathItem}

/-- What a successful sort leaves: the items, strictly ordered. -/
theorem SortsTo.ordered (h : SortsTo compareStr sort order paths result)
    (hn : (paths.map PathItem.name).Nodup) :
    result.Perm paths ∧
      result.Pairwise fun a b => comparePathItems compareStr sort order a b = .lt := by
  have := transCmp_comparePathItems compareStr sort order
  obtain ⟨active, fuel, rsv, hf, hr⟩ := h
  have ho : Leaves (fun _ => At 1 fun w => Rearranged paths.get w ∧
      IsStableSort (comparePathItems compareStr sort order) paths.get w)
      (Stopped active rsv paths.get) (stableSortByInterruptible
        (comparePathItems compareStr sort order) active fuel rsv paths.get) :=
    stableSortByInterruptible_outcome hf
  unfold sortPathItems at hr
  generalize stableSortByInterruptible (comparePathItems compareStr sort order) active fuel
    rsv paths.get = outcome at ho hr
  obtain ⟨ans, st⟩ := outcome
  obtain ⟨rfl, rfl⟩ := Prod.mk.inj hr
  obtain ⟨-, -, hs⟩ := ho
  refine ⟨?_, hs.pairwise_lt ?_⟩
  · have hp := hs.perm
    rwa [List.ofFn_get] at hp
  intro i j heq
  have hnm : (paths.map PathItem.name).get (i.cast (List.length_map _).symm) =
      (paths.map PathItem.name).get (j.cast (List.length_map _).symm) := by
    simpa using comparePathItems_eq_eq heq
  exact Fin.cast_injective _ (List.nodup_iff_injective_get.mp hn hnm)

/-- A sort that is not interrupted and gets its memory succeeds. -/
theorem SortsTo.exists (compareStr : String → String → Ordering) [TransCmp compareStr]
    (sort order : String) (paths : List PathItem) :
    ∃ result, SortsTo compareStr sort order paths result := by
  have := transCmp_comparePathItems compareStr sort order
  have ho : Leaves (fun _ => At 1 fun w => Rearranged paths.get w ∧
      IsStableSort (comparePathItems compareStr sort order) paths.get w)
      (Stopped (fun _ => true) (true, true) paths.get) (stableSortByInterruptible
        (comparePathItems compareStr sort order) (fun _ => true) paths.length (true, true)
          paths.get) :=
    stableSortByInterruptible_outcome le_rfl
  rcases hoe : stableSortByInterruptible (comparePathItems compareStr sort order)
    (fun _ => true) paths.length (true, true) paths.get with ⟨stop | ⟨⟩, state⟩
  · rw [hoe] at ho
    match stop, ho.1 with
    | .failed .interrupted, ⟨_, hf⟩ => cases hf
    | .failed .allocation, hm => exact absurd rfl hm
  · refine ⟨List.ofFn state.values, fun _ => true, paths.length, (true, true), le_rfl, ?_⟩
    rw [sortPathItems, hoe]

end sorted

theorem comparePathItems_desc (compareStr : String → String → Ordering) [TransCmp compareStr]
    (sort : String) {order : String} (ho : order ≠ "desc") (a b : PathItem) :
    comparePathItems compareStr sort "desc" a b = comparePathItems compareStr sort order b a := by
  have := transCmp_compareByKey compareStr sort
  rw [comparePathItems, comparePathItems, if_pos rfl, if_neg ho]
  exact OrientedCmp.eq_swap.symm

/-- The sorted listing of items with different names does not depend on the order in which the
    directory returned them: all arrangements of the items sort to one list and to no other,
    which has the items in the comparator's order, and in descending order to the reverse of that
    list. -/
theorem sorted_listing_canonical (compareStr : String → String → Ordering) [TransCmp compareStr]
    (paths : List PathItem) (hnames : (paths.map PathItem.name).Nodup) (sort order : String)
    (horder : order ≠ "desc") :
    ∃ sorted : List PathItem, sorted.Perm paths ∧
      sorted.Pairwise (fun a b => comparePathItems compareStr sort order a b = .lt) ∧
      ∀ arranged, arranged.Perm paths →
        (∀ result, SortsTo compareStr sort order arranged result ↔ result = sorted) ∧
          ∀ result, SortsTo compareStr sort "desc" arranged result ↔ result = sorted.reverse := by
  have ht := transCmp_comparePathItems compareStr sort order
  have ha : ∀ a b : PathItem, comparePathItems compareStr sort order a b = .lt →
      comparePathItems compareStr sort order b a = .lt → a = b := by
    intro a b hab hba
    have hsw : comparePathItems compareStr sort order a b =
        (comparePathItems compareStr sort order b a).swap := OrientedCmp.eq_swap
    rw [hab, hba] at hsw
    cases hsw
  obtain ⟨sorted, hsr⟩ := SortsTo.exists compareStr sort order paths
  have hc := hsr.ordered hnames
  refine ⟨sorted, hc.1, hc.2, fun arranged hp => ?_⟩
  have hn' : (arranged.map PathItem.name).Nodup := (hp.map _).nodup_iff.mpr hnames
  have hup : ∀ result, SortsTo compareStr sort order arranged result → result = sorted := by
    intro result hr
    obtain ⟨hs, ho⟩ := hr.ordered hn'
    exact List.Perm.eq_of_pairwise (fun a b _ _ => ha a b) ho hc.2 (hs.trans (hp.trans hc.1.symm))
  have hd : ∀ result, SortsTo compareStr sort "desc" arranged result → result = sorted.reverse := by
    intro result hr
    obtain ⟨hs, ho⟩ := hr.ordered hn'
    simp only [comparePathItems_desc compareStr sort horder] at ho
    exact List.Perm.eq_of_pairwise (fun a b _ _ hab hba => ha a b hba hab) ho
      (List.pairwise_reverse.mpr hc.2)
      (hs.trans (hp.trans (hc.1.symm.trans sorted.reverse_perm.symm)))
  refine ⟨fun result => ⟨hup result, ?_⟩, fun result => ⟨hd result, ?_⟩⟩
  · rintro rfl
    obtain ⟨other, hot⟩ := SortsTo.exists compareStr sort order arranged
    rwa [hup other hot] at hot
  · rintro rfl
    obtain ⟨other, hot⟩ := SortsTo.exists compareStr sort "desc" arranged
    rwa [hd other hot] at hot

/-- A file and a directory, sorted by size under the comparison of strings as they are. -/
theorem sorted_listing_canonical_two : ∃ sorted : List PathItem,
    sorted.Perm [⟨.file, "a", "a", 5, 1⟩, ⟨.dir, "b", "b", 7, 2⟩] ∧
      sorted.Pairwise (fun a b => comparePathItems compare "size" "asc" a b = .lt) ∧
      ∀ arranged, arranged.Perm [⟨.file, "a", "a", 5, 1⟩, ⟨.dir, "b", "b", 7, 2⟩] →
        (∀ result, SortsTo compare "size" "asc" arranged result ↔ result = sorted) ∧
          ∀ result, SortsTo compare "size" "desc" arranged result ↔ result = sorted.reverse :=
  sorted_listing_canonical compare _ (by decide) "size" "asc" (by decide)

end DufsRam.Listing
