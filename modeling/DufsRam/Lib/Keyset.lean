import Mathlib
import DufsRam.Lib.Table

/-!
# Keyset pagination

A table is read in pages: the rows whose key is beyond a cursor, in the order of the keys,
up to a limit. A page that is full gives the next cursor. The table may change between two
pages.

Results:
* `mem_page_of_le_next`, `mem_page_of_next_none`: a page leaves out no row between its cursor
  and the next one.
* `scan_terminates`: where there are no infinite ascending chains of keys, a scan ends.
* `scan_spec`: a scan yields ascending keys, only rows that were there, and a row for every
  key that was there all the time.
-/

namespace Keyset

variable {κ ρ : Type} [LinearOrder κ]

/-- The key comes after the cursor. -/
def beyond (after : Option κ) (key : κ) : Bool := after.all fun cursor => decide (cursor < key)

/-- The rows beyond the cursor in the order of their keys. -/
def ordered (after : Option κ) (t : Table κ ρ) : List (κ × ρ) :=
  (t.rows.filter fun row => beyond after row.1).insertionSort fun row row' => row.1 ≤ row'.1

/-- One page. -/
def page (limit : ℕ) (after : Option κ) (t : Table κ ρ) : List (κ × ρ) :=
  (ordered after t).take limit

/-- The cursor of the next page. -/
def next (limit : ℕ) (rows : List (κ × ρ)) : Option κ :=
  if rows.length = limit then rows.getLast?.map Prod.fst else none

/-- The pages from the `n`-th query on; `tables n` is what that query reads. -/
def scan (limit : ℕ) (tables : ℕ → Table κ ρ) : ℕ → ℕ → Option κ → Option (List (List (κ × ρ)))
  | 0, _, _ => none
  | fuel + 1, n, after =>
    let rows := page limit after (tables n)
    match next limit rows with
    | none => some [rows]
    | some cursor => (scan limit tables fuel (n + 1) (some cursor)).map (rows :: ·)

/-! ## One page -/

@[simp] theorem beyond_none (key : κ) : beyond none key = true := rfl

@[simp] theorem beyond_some {cursor key : κ} : beyond (some cursor) key = true ↔ cursor < key := by
  simp [beyond]

theorem mem_ordered {after : Option κ} {t : Table κ ρ} {row : κ × ρ} :
    row ∈ ordered after t ↔ row ∈ t.rows ∧ beyond after row.1 = true := by
  rw [ordered, List.mem_insertionSort, List.mem_filter]

/-- The keys of a table are distinct, so they ascend strictly. -/
theorem ordered_pairwise (after : Option κ) (t : Table κ ρ) :
    (ordered after t).Pairwise fun row row' => row.1 < row'.1 := by
  have hle : (ordered after t).Pairwise fun row row' => row.1 ≤ row'.1 :=
    List.pairwise_insertionSort (r := fun row row' : κ × ρ => row.1 ≤ row'.1) _
  have hne : (ordered after t).Pairwise fun row row' => row.1 ≠ row'.1 := by
    have hn : ((t.rows.filter fun row => beyond after row.1).map Prod.fst).Nodup :=
      t.nodupKeys.sublist (List.filter_sublist.map Prod.fst)
    have hp := (List.perm_insertionSort (fun row row' : κ × ρ => row.1 ≤ row'.1)
      (t.rows.filter fun row => beyond after row.1)).map Prod.fst
    exact List.pairwise_map.mp (hp.nodup_iff.mpr hn)
  exact (hle.and hne).imp fun h => lt_of_le_of_ne h.1 h.2

section Page

variable {limit : ℕ} {after : Option κ} {t : Table κ ρ} {row : κ × ρ} {cursor : κ}

theorem mem_of_mem_page (h : row ∈ page limit after t) : row ∈ t.rows ∧ beyond after row.1 = true :=
  mem_ordered.mp (List.mem_of_mem_take h)

theorem page_pairwise (limit : ℕ) (after : Option κ) (t : Table κ ρ) :
    (page limit after t).Pairwise fun row row' => row.1 < row'.1 :=
  (ordered_pairwise after t).sublist (List.take_sublist _ _)

/-- The next cursor is the key of the last row of a full page. -/
theorem next_eq_some (h : next limit (page limit after t) = some cursor) :
    (page limit after t).length = limit ∧
      ∃ row, (page limit after t).getLast? = some row ∧ row.1 = cursor := by
  unfold next at h
  split_ifs at h with hf
  exact ⟨hf, Option.map_eq_some_iff.mp h⟩

theorem beyond_next (h : next limit (page limit after t) = some cursor) :
    beyond after cursor = true := by
  obtain ⟨-, row, hl, rfl⟩ := next_eq_some h
  exact (mem_of_mem_page (List.mem_of_getLast? hl)).2

/-- The last row of a page has the largest key. -/
theorem le_last_of_mem_page {last : κ × ρ} (hl : (page limit after t).getLast? = some last)
    (hr : row ∈ page limit after t) : row.1 ≤ last.1 := by
  obtain ⟨rest, heq⟩ := List.getLast?_eq_some_iff.mp hl
  have hp := page_pairwise limit after t
  rw [heq] at hr hp
  obtain hr | hr := List.mem_append.mp hr
  · exact ((List.pairwise_append.mp hp).2.2 row hr last List.mem_cons_self).le
  · rw [List.mem_singleton.mp hr]

/-- No row of a page is beyond the next cursor. -/
theorem le_next_of_mem_page (h : next limit (page limit after t) = some cursor)
    (hr : row ∈ page limit after t) : row.1 ≤ cursor := by
  obtain ⟨-, last, hl, rfl⟩ := next_eq_some h
  exact le_last_of_mem_page hl hr

/-- A row beyond the cursor that is not on the page comes after every row of the page. -/
theorem lt_of_not_mem_page (hm : row ∈ t.rows) (hb : beyond after row.1 = true)
    (hn : row ∉ page limit after t) {other : κ × ρ} (ho : other ∈ page limit after t) :
    other.1 < row.1 := by
  have hp := ordered_pairwise after t
  rw [← List.take_append_drop limit (ordered after t)] at hp
  have hd : row ∈ (ordered after t).drop limit := by
    have hor := mem_ordered.mpr ⟨hm, hb⟩
    rw [← List.take_append_drop limit (ordered after t)] at hor
    exact (List.mem_append.mp hor).resolve_left hn
  exact (List.pairwise_append.mp hp).2.2 other ho row hd

/-- A page leaves out no row before one of its own. -/
theorem mem_page_of_le (hm : row ∈ t.rows) (hb : beyond after row.1 = true)
    {other : κ × ρ} (ho : other ∈ page limit after t) (hle : row.1 ≤ other.1) :
    row ∈ page limit after t := by
  by_contra hn
  exact absurd hle (not_le.mpr (lt_of_not_mem_page hm hb hn ho))

theorem mem_page_of_le_next (hm : row ∈ t.rows) (hb : beyond after row.1 = true)
    (h : next limit (page limit after t) = some cursor) (hle : row.1 ≤ cursor) :
    row ∈ page limit after t := by
  obtain ⟨-, last, hl, rfl⟩ := next_eq_some h
  exact mem_page_of_le hm hb (List.mem_of_getLast? hl) hle

/-- An empty page is the last one. -/
theorem not_beyond_of_page_eq_nil (hl : 1 ≤ limit) (h : page limit after t = [])
    (hm : row ∈ t.rows) : beyond after row.1 = false := by
  by_contra hb
  have ho := mem_ordered.mpr ⟨hm, Bool.eq_true_of_not_eq_false hb⟩
  obtain hz | hn := List.take_eq_nil_iff.mp h
  · omega
  · rw [hn] at ho
    exact List.not_mem_nil ho

/-- A page without a next one is the rest. -/
theorem mem_page_of_next_none (hl : 1 ≤ limit) (hm : row ∈ t.rows)
    (hb : beyond after row.1 = true) (h : next limit (page limit after t) = none) :
    row ∈ page limit after t := by
  have ho := mem_ordered.mpr ⟨hm, hb⟩
  have hs : (page limit after t).length ≠ limit := by
    intro hf
    rw [next, if_pos hf, Option.map_eq_none_iff, List.getLast?_eq_none_iff] at h
    rw [h, List.length_nil] at hf
    omega
  rw [page, List.length_take] at hs
  rw [page, List.take_of_length_le (by omega)]
  exact ho

end Page

/-! ## The scan -/

section Scan

variable {limit : ℕ} {tables : ℕ → Table κ ρ}

variable {n fuel : ℕ} {after : Option κ} {cursor : κ}

theorem scan_last (hn : next limit (page limit after (tables n)) = none) :
    scan limit tables (fuel + 1) n after = some [page limit after (tables n)] := by
  simp [scan, hn]

theorem scan_next (hn : next limit (page limit after (tables n)) = some cursor) :
    scan limit tables (fuel + 1) n after =
      (scan limit tables fuel (n + 1) (some cursor)).map (page limit after (tables n) :: ·) := by
  simp [scan, hn]

/-- Every page moves the cursor on, so a scan ends however the table changes. -/
theorem scan_terminates [WellFoundedGT κ] (limit : ℕ) (tables : ℕ → Table κ ρ) (n : ℕ)
    (after : Option κ) : ∃ fuel pages, scan limit tables fuel n after = some pages := by
  have hp : ∀ n after, (∀ cursor, beyond after cursor = true →
      ∃ fuel pages, scan limit tables fuel (n + 1) (some cursor) = some pages) →
      ∃ fuel pages, scan limit tables fuel n after = some pages := by
    intro n after hr
    cases hn : next limit (page limit after (tables n)) with
    | none => exact ⟨1, _, scan_last hn⟩
    | some cursor =>
      obtain ⟨fuel, pages, hs⟩ := hr cursor (beyond_next hn)
      exact ⟨fuel + 1, _, by rw [scan_next hn, hs, Option.map_some]⟩
  have hsm : ∀ cursor n, ∃ fuel pages, scan limit tables fuel n (some cursor) = some pages := by
    intro cursor
    induction cursor using WellFoundedGT.induction with
    | ind cursor ih =>
      intro n
      exact hp n (some cursor) fun c' h => ih c' (beyond_some.mp h) (n + 1)
  exact hp n after fun cursor _ => hsm cursor (n + 1)

/-- What the pages of a scan hold, from the `n`-th query on. -/
structure Covers (tables : ℕ → Table κ ρ) (n : ℕ) (after : Option κ)
    (pages : List (List (κ × ρ))) : Prop where
  ascending : pages.flatten.Pairwise fun row row' => row.1 < row'.1
  beyond : ∀ row ∈ pages.flatten, beyond after row.1 = true
  present : ∀ row ∈ pages.flatten, ∃ i < pages.length, row ∈ (tables (n + i)).rows
  complete : ∀ key, Keyset.beyond after key = true →
    (∀ i < pages.length, ∃ r, (key, r) ∈ (tables (n + i)).rows) → ∃ r, (key, r) ∈ pages.flatten

/-- The last page. -/
theorem Covers.last (hl : 1 ≤ limit) (hn : next limit (page limit after (tables n)) = none) :
    Covers tables n after [page limit after (tables n)] := by
  have hf : [page limit after (tables n)].flatten = page limit after (tables n) := by simp
  refine ⟨?_, ?_, ?_, ?_⟩
  · rw [hf]
    exact page_pairwise limit after (tables n)
  · intro row hrw
    rw [hf] at hrw
    exact (mem_of_mem_page hrw).2
  · intro row hrw
    rw [hf] at hrw
    exact ⟨0, by simp, (mem_of_mem_page hrw).1⟩
  · intro key hb ha
    rw [hf]
    obtain ⟨r, hr⟩ := ha 0 (by simp)
    exact ⟨r, mem_page_of_next_none hl hr hb hn⟩

/-- A page before the others. What it leaves out is beyond the next cursor. -/
theorem Covers.cons (hn : next limit (page limit after (tables n)) = some cursor)
    {ps : List (List (κ × ρ))} (h : Covers tables (n + 1) (some cursor) ps) :
    Covers tables n after (page limit after (tables n) :: ps) := by
  refine ⟨?_, ?_, ?_, ?_⟩
  · rw [List.flatten_cons, List.pairwise_append]
    refine ⟨page_pairwise limit after (tables n), h.ascending, fun row hrw row' hr' => ?_⟩
    exact (le_next_of_mem_page hn hrw).trans_lt (beyond_some.mp (h.beyond row' hr'))
  · intro row hrw
    obtain hrw | hrw := List.mem_append.mp hrw
    · exact (mem_of_mem_page hrw).2
    have hlt := beyond_some.mp (h.beyond row hrw)
    cases after with
    | none => rfl
    | some c => exact beyond_some.mpr ((beyond_some.mp (beyond_next hn)).trans hlt)
  · intro row hrw
    obtain hrw | hrw := List.mem_append.mp hrw
    · exact ⟨0, by simp, (mem_of_mem_page hrw).1⟩
    · obtain ⟨i, hi, hm⟩ := h.present row hrw
      refine ⟨i + 1, by simpa using hi, ?_⟩
      rwa [show n + (i + 1) = n + 1 + i by omega]
  · intro key hb ha
    obtain hle | hlt := le_or_gt key cursor
    · obtain ⟨r, hr⟩ := ha 0 (by simp)
      exact ⟨r, List.mem_append_left _ (mem_page_of_le_next hr hb hn hle)⟩
    have hl : ∀ i < ps.length, ∃ r, (key, r) ∈ (tables (n + 1 + i)).rows := by
      intro i hi
      rw [show n + 1 + i = n + (i + 1) by omega]
      exact ha (i + 1) (by simpa using hi)
    obtain ⟨r, hr⟩ := h.complete key (beyond_some.mpr hlt) hl
    exact ⟨r, List.mem_append_right _ hr⟩

theorem scan_spec (hl : 1 ≤ limit) {pages : List (List (κ × ρ))}
    (h : scan limit tables fuel n after = some pages) : Covers tables n after pages := by
  induction fuel generalizing n after pages with
  | zero => cases h
  | succ fuel ih =>
    cases hn : next limit (page limit after (tables n)) with
    | none =>
      rw [scan_last hn] at h
      cases h
      exact .last hl hn
    | some cursor =>
      rw [scan_next hn] at h
      obtain ⟨rest, hs, rfl⟩ := Option.map_eq_some_iff.mp h
      exact .cons hn (ih hs)

end Scan

end Keyset
