import Mathlib

/-!
# Files whose writes become durable by a sync

A `DurableFile` is the content a reader sees together with what a crash may do to it: the
first `durable` elements survive, the rest is lost or arbitrary, and the file does not
become longer than it has been since the last sync (`extent`).

Results:
* `DurableFile.content_writeAt_length`: a write at the end appends.
* `DurableFile.Holds` and its lemmas: a prefix of the content is fixed and durable; which
  operations keep it, and that a sync establishes it.
-/

/-- The content of a file and what a crash leaves of it. -/
structure DurableFile (β : Type*) where
  content : List β
  durable : ℕ
  extent : ℕ
  durable_le : durable ≤ content.length
  length_le : content.length ≤ extent
deriving DecidableEq

namespace DurableFile

variable {β : Type*}

/-- A new, empty file. -/
def new : DurableFile β := ⟨[], 0, 0, le_rfl, le_rfl⟩

/-- Write `data` at position `pos`; a gap before it is filled. -/
def writeAt (fill : β) (f : DurableFile β) (pos : ℕ) (data : List β) : DurableFile β where
  content :=
    if data = [] then f.content
    else f.content.take pos ++ List.replicate (pos - f.content.length) fill ++ data ++
      f.content.drop (pos + data.length)
  durable := min f.durable pos
  extent := max f.extent (pos + data.length)
  durable_le := by
    have := f.durable_le
    split_ifs
    · exact (min_le_left _ _).trans this
    · simp only [List.length_append, List.length_take]
      omega
  length_le := by
    have := f.length_le
    split_ifs
    · exact this.trans (le_max_left _ _)
    · simp only [List.length_append, List.length_take, List.length_replicate, List.length_drop]
      omega

/-- Cut the file to length `n`, or extend it with `fill`. -/
def setLen (fill : β) (f : DurableFile β) (n : ℕ) : DurableFile β where
  content := f.content.take n ++ List.replicate (n - f.content.length) fill
  durable := min f.durable n
  extent := max f.extent n
  durable_le := by
    have := f.durable_le
    simp only [List.length_append, List.length_take]
    omega
  length_le := by
    have := f.length_le
    simp only [List.length_append, List.length_take, List.length_replicate]
    omega

/-- Everything written so far becomes durable. -/
def sync (f : DurableFile β) : DurableFile β :=
  ⟨f.content, f.content.length, f.content.length, le_rfl, le_rfl⟩

/-- A crash after which the file ends in `tail`, as far as it can be that long. -/
def crash (f : DurableFile β) (tail : List β) : DurableFile β where
  content := f.content.take f.durable ++ tail.take (f.extent - f.durable)
  durable := f.durable
  extent := f.extent
  durable_le := by
    have := f.durable_le
    simp only [List.length_append, List.length_take]
    omega
  length_le := by
    have := f.durable_le.trans f.length_le
    simp only [List.length_append, List.length_take]
    omega

/-- A write at the end of the file appends. -/
theorem content_writeAt_length (fill : β) (f : DurableFile β) (data : List β) :
    (f.writeAt fill f.content.length data).content = f.content ++ data := by
  by_cases hd : data = []
  · simp [writeAt, hd]
  · simp [writeAt, hd]

/-- Two writes one after the other are one write. -/
theorem content_writeAt_writeAt (fill : β) (f : DurableFile β) (pos : ℕ) (a b : List β) :
    ((f.writeAt fill pos a).writeAt fill (pos + a.length) b).content =
      (f.writeAt fill pos (a ++ b)).content := by
  by_cases ha : a = []
  · simp [writeAt, ha]
  by_cases hb : b = []
  · simp [writeAt, hb]
  have hab : a ++ b ≠ [] := fun h => ha (List.append_eq_nil_iff.mp h).1
  -- Everything before the second write has its full length.
  have hf : (f.content.take pos ++ List.replicate (pos - f.content.length) fill ++ a).length =
      pos + a.length := by
    simp only [List.length_append, List.length_take, List.length_replicate]
    omega
  simp only [writeAt, ha, hb, hab, if_false, ← List.append_assoc]
  generalize f.content.take pos ++ List.replicate (pos - f.content.length) fill ++ a = front
    at hf
  rw [← hf, List.take_left, List.drop_append,
    List.drop_eq_nil_of_le (Nat.le_add_right front.length b.length), List.drop_drop]
  have hg : front.length - (front ++ f.content.drop front.length).length = 0 := by
    rw [List.length_append]
    omega
  simp [hf, Nat.add_assoc]

theorem content_setLen {fill : β} {f : DurableFile β} {n : ℕ} (h : n ≤ f.content.length) :
    (f.setLen fill n).content = f.content.take n := by
  simp [setLen, Nat.sub_eq_zero_of_le h]

/-! ## A durable prefix -/

/-- The first `n` elements of the file are those of `xs`, and a crash keeps them. -/
structure Holds (f : DurableFile β) (n : ℕ) (xs : List β) : Prop where
  durable : n ≤ f.durable
  length : n ≤ xs.length
  content : f.content.take n = xs.take n

namespace Holds

variable {f : DurableFile β} {n : ℕ} {xs ys : List β}

theorem zero (f : DurableFile β) (xs : List β) : f.Holds 0 xs :=
  ⟨Nat.zero_le _, Nat.zero_le _, by simp⟩

theorem writeAt (h : f.Holds n xs) (fill : β) {pos : ℕ} (hp : n ≤ pos) (data : List β) :
    (f.writeAt fill pos data).Holds n xs := by
  have hl : n ≤ f.content.length := h.durable.trans f.durable_le
  refine ⟨le_min h.durable hp, h.length, ?_⟩
  by_cases hd : data = []
  · simpa [DurableFile.writeAt, hd] using h.content
  have ht : n ≤ (f.content.take pos).length := by
    rw [List.length_take]
    exact le_min hp hl
  simp only [DurableFile.writeAt, hd, if_false, List.append_assoc]
  rw [List.take_append_of_le_length ht, List.take_take, min_eq_left hp]
  exact h.content

theorem setLen (h : f.Holds n xs) (fill : β) {m : ℕ} (hm : n ≤ m) :
    (f.setLen fill m).Holds n xs := by
  have hl : n ≤ f.content.length := h.durable.trans f.durable_le
  have ht : n ≤ (f.content.take m).length := by
    rw [List.length_take]
    exact le_min hm hl
  refine ⟨le_min h.durable hm, h.length, ?_⟩
  simp only [DurableFile.setLen]
  rw [List.take_append_of_le_length ht, List.take_take, min_eq_left hm]
  exact h.content

theorem sync (h : f.Holds n xs) : f.sync.Holds n xs :=
  ⟨h.durable.trans f.durable_le, h.length, h.content⟩

/-- What has been written in order is held once it is synced. -/
theorem of_sync (hl : n ≤ f.content.length) (hp : f.content <+: xs) : f.sync.Holds n xs := by
  refine ⟨hl, hl.trans hp.length_le, ?_⟩
  obtain ⟨rest, rfl⟩ := hp
  exact (List.take_append_of_le_length hl).symm

theorem crash (h : f.Holds n xs) (tail : List β) : (f.crash tail).Holds n xs := by
  have ht : n ≤ (f.content.take f.durable).length := by
    rw [List.length_take]
    exact le_min h.durable (h.durable.trans f.durable_le)
  refine ⟨h.durable, h.length, ?_⟩
  simp only [DurableFile.crash]
  rw [List.take_append_of_le_length ht, List.take_take, min_eq_left h.durable]
  exact h.content

end Holds

end DurableFile
