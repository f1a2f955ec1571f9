import Mathlib.Data.Int.Notation
import Mathlib.Data.Nat.Notation

/-!
# Doubles by their bit pattern

An IEEE 754 binary64 value given by its 64 bits, with the comparisons of C++: every
comparison with a NaN is false, and the two zeros are equal. Equality of `Double`s is
equality of the bits, which is what a serialized value keeps.

## Main definitions

* `Double.isNaN`, `Double.isZero`, `Double.le`, `Double.lt`: `x != x`, `x == 0`, `x <= y` and
  `x < y`

## Main results

* `Double.lt_trans`, `Double.lt_asymm`: `x < y` is a strict order
* `Double.lt_of_le_eq_false`: where one of two values is the smaller, `x <= y` decides which
-/

/-- A binary64 value. -/
structure Double where
  bits : UInt64
  deriving DecidableEq, Repr, Inhabited

namespace Double

/-- The bits without the sign. -/
def magnitude (x : Double) : ℕ := (x.bits &&& 0x7FFFFFFFFFFFFFFF).toNat

def isNegative (x : Double) : Bool := x.bits &&& 0x8000000000000000 != 0

/-- `x != x`: the exponent is all ones and the fraction is not zero. -/
def isNaN (x : Double) : Bool := 0x7FF0000000000000 < x.magnitude

/-- `x == 0`, of either sign. -/
def isZero (x : Double) : Bool := x.magnitude == 0

/-- The order of the values that are not NaN: by sign, then by magnitude. -/
def rank (x : Double) : ℤ := if x.isNegative then -(x.magnitude : ℤ) else x.magnitude

/-- `x <= y`. -/
def le (x y : Double) : Bool := !x.isNaN && !y.isNaN && decide (x.rank ≤ y.rank)

/-- `x < y`. -/
def lt (x y : Double) : Bool := !x.isNaN && !y.isNaN && decide (x.rank < y.rank)

section Order

variable {x y z : Double}

theorem lt_iff : x.lt y = true ↔ x.isNaN = false ∧ y.isNaN = false ∧ x.rank < y.rank := by
  simp [lt, and_assoc]

theorem le_iff : x.le y = true ↔ x.isNaN = false ∧ y.isNaN = false ∧ x.rank ≤ y.rank := by
  simp [le, and_assoc]

theorem lt_asymm (h : x.lt y = true) : ¬ y.lt x = true := by
  intro h'
  rw [lt_iff] at h h'
  omega

theorem lt_irrefl (x : Double) : ¬ x.lt x = true := fun h => lt_asymm h h

theorem lt_trans (h : x.lt y = true) (h' : y.lt z = true) : x.lt z = true := by
  rw [lt_iff] at h h' ⊢
  exact ⟨h.1, h'.2.1, by omega⟩

/-- Of two values one of which is the smaller, `x <= y` finds the smaller. -/
theorem lt_of_le (hne : x.lt y = true ∨ y.lt x = true) (h : x.le y = true) : x.lt y = true := by
  refine hne.resolve_right fun hlt => ?_
  rw [lt_iff] at hlt
  rw [le_iff] at h
  omega

theorem lt_of_le_eq_false (hne : x.lt y = true ∨ y.lt x = true) (h : x.le y = false) :
    y.lt x = true := by
  refine hne.resolve_left fun hlt => ?_
  rw [lt_iff] at hlt
  have hle : x.le y = true := le_iff.mpr ⟨hlt.1, hlt.2.1, Int.le_of_lt hlt.2.2⟩
  rw [h] at hle
  exact absurd hle (by decide)

end Order

end Double
