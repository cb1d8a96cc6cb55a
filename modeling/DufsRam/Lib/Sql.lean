import Mathlib

/-!
# Conditions of SQL

A condition is true, false or NULL, and a `CHECK` constraint rejects a row only if it is false. An
integer column is a number or NULL.

Results:
* `and_some`, `or_some`, `not_some`: without NULL the connectives are those of `Bool`.
* `passes_some`: so is the constraint.
-/

namespace Sql

/-- The value of a condition; `none` is NULL. -/
abbrev Truth := Option Bool

namespace Truth

/-- `AND`: false wins over NULL. -/
def and : Truth → Truth → Truth
  | some false, _ => some false
  | some true, t => t
  | none, some false => some false
  | none, _ => none

/-- `OR`: true wins over NULL. -/
def or : Truth → Truth → Truth
  | some true, _ => some true
  | some false, t => t
  | none, some true => some true
  | none, _ => none

/-- `NOT`. -/
def not (t : Truth) : Truth := t.map Bool.not

/-- Does a `CHECK` constraint let the row through? -/
def passes (t : Truth) : Bool := t != some false

@[simp] theorem and_some (a b : Bool) : and (some a) (some b) = some (a && b) := by
  cases a with
  | true => rfl
  | false => rfl

@[simp] theorem or_some (a b : Bool) : or (some a) (some b) = some (a || b) := by
  cases a with
  | true => rfl
  | false => rfl

@[simp] theorem or_true (t : Truth) : or (some true) t = some true := rfl

@[simp] theorem not_some (a : Bool) : not (some a) = some !a := rfl

@[simp] theorem passes_some (a : Bool) : passes (some a) = a := by
  cases a with
  | true => rfl
  | false => rfl

end Truth

/-- `x IS NULL`. -/
def isNull {α : Type} (x : Option α) : Truth := some x.isNone

/-- `x IN (…)`. -/
def oneOf (x : Option ℤ) (values : List ℤ) : Truth := x.map fun v => decide (v ∈ values)

/-- `x BETWEEN low AND high`. -/
def between (x : Option ℤ) (low high : ℤ) : Truth := x.map fun v => decide (low ≤ v ∧ v ≤ high)

/-- `x = y`. -/
def equal (x y : Option ℤ) : Truth :=
  match x, y with
  | some v, some w => some (decide (v = w))
  | _, _ => none

/-- `length(x)` of a blob. -/
def blobLength (x : Option (List UInt8)) : Option ℤ := x.map fun bytes => (bytes.length : ℤ)

/-- `length(x)` of a text: the characters before the first NUL. -/
def textLength (x : Option String) : Option ℤ :=
  x.map fun text => ((text.toList.takeWhile fun c => c != '\x00').length : ℤ)

@[simp] theorem oneOf_some (v : ℤ) (values : List ℤ) :
    oneOf (some v) values = some (decide (v ∈ values)) := rfl

@[simp] theorem between_some (v low hi : ℤ) :
    between (some v) low hi = some (decide (low ≤ v ∧ v ≤ hi)) := rfl

@[simp] theorem equal_some (v w : ℤ) : equal (some v) (some w) = some (decide (v = w)) := rfl

@[simp] theorem blobLength_some (b : List UInt8) : blobLength (some b) = some (b.length : ℤ) := rfl

end Sql
