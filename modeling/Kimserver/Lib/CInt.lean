import Mathlib.Data.Int.Lemmas
import Mathlib.Tactic.Linarith

/-!
# C integers

The values of the types `int` and `uint32_t` are integers in their range, and a conversion
into a type reduces modulo `2 ^ 32` into that range. A `size_t` has 64 bits.

## Main definitions

* `CInt.toInt`, `CInt.toUInt32`, `CInt.toSize`: conversion to `int`, `uint32_t` and `size_t`
* `CInt.InRange`: the values of `int`

## Main results

* `CInt.toUInt32_toInt`: an unsigned value survives the way through `int`
* `CInt.toInt_of_inRange`: a value in range is converted to itself
* `CInt.toSize_toInt_sub_one`, `CInt.toSize_toInt_sub_one_of_le`: a size that goes through `int`
-/

namespace CInt

/-- Conversion to `int`, modulo `2 ^ 32`. -/
def toInt (n : ℤ) : ℤ := Int.bmod n 4294967296

/-- Conversion to `uint32_t`, modulo `2 ^ 32`. -/
def toUInt32 (n : ℤ) : UInt32 := UInt32.ofNat (n % 4294967296).toNat

/-- Conversion to `size_t`, modulo `2 ^ 64`. -/
def toSize (n : ℤ) : ℕ := (n % 18446744073709551616).toNat

/-- The values of the type `int`, from `-2 ^ 31` to `2 ^ 31 - 1`. -/
def InRange (n : ℤ) : Prop := -2147483648 ≤ n ∧ n < 2147483648

instance (n : ℤ) : Decidable (InRange n) := inferInstanceAs (Decidable (_ ∧ _))

theorem inRange_zero : InRange 0 := by decide

theorem inRange_toInt (n : ℤ) : InRange (toInt n) := by
  have h₁ := Int.le_bmod (x := n) (m := 4294967296) (by norm_num)
  have h₂ := Int.bmod_lt (x := n) (m := 4294967296) (by norm_num)
  norm_num at h₁ h₂
  exact ⟨h₁, h₂⟩

/-- A value of the type is converted to itself. -/
theorem toInt_of_inRange {n : ℤ} (h : InRange n) : toInt n = n := by
  refine Int.bmod_eq_of_le ?_ ?_
  · have := h.1; norm_num; exact this
  · have := h.2; norm_num; exact this

/-- A sum above the type becomes negative. -/
theorem toInt_of_above {n : ℤ} (h : 2147483648 ≤ n) (h' : n < 6442450944) :
    toInt n = n - 4294967296 := by
  have hwrap : toInt n = toInt (n - 4294967296) := by
    conv_lhs => rw [← Int.sub_add_cancel n 4294967296]
    exact Int.add_bmod_right (n - 4294967296) 4294967296
  rw [hwrap]
  exact toInt_of_inRange ⟨by linarith, by linarith⟩

theorem toUInt32_toNat (u : UInt32) : toUInt32 (u.toNat : ℤ) = u := by
  have hlt : (u.toNat : ℤ) < 4294967296 := by exact_mod_cast u.toNat_lt
  unfold toUInt32
  rw [Int.emod_eq_of_lt (Int.natCast_nonneg _) hlt, Int.toNat_natCast, UInt32.ofNat_toNat]

/-- **An unsigned value survives the way through `int`**: both conversions are reductions
modulo `2 ^ 32`. -/
theorem toUInt32_toInt (u : UInt32) : toUInt32 (toInt u.toNat) = u := by
  conv_rhs => rw [← toUInt32_toNat u]
  unfold toUInt32 toInt
  rw [show (4294967296 : ℤ) = ((4294967296 : ℕ) : ℤ) from rfl, Int.bmod_emod]

/-- A value of the type survives the way through `uint32_t`. -/
theorem toInt_toUInt32 {n : ℤ} (h : InRange n) : toInt (toUInt32 n).toNat = n := by
  have hnonneg : 0 ≤ n % 4294967296 := Int.emod_nonneg _ (by norm_num)
  have hlt : n % 4294967296 < 4294967296 := Int.emod_lt_of_pos _ (by norm_num)
  have hnat : (toUInt32 n).toNat = (n % 4294967296).toNat :=
    UInt32.toNat_ofNat_of_lt' (by norm_num; omega)
  have hcast : (((toUInt32 n).toNat : ℕ) : ℤ) = n % 4294967296 := by
    rw [hnat, Int.toNat_of_nonneg hnonneg]
  rw [hcast, toInt, show (4294967296 : ℤ) = ((4294967296 : ℕ) : ℤ) from rfl, Int.emod_bmod]
  exact toInt_of_inRange h

theorem toInt_injective {u v : UInt32} (h : toInt u.toNat = toInt v.toNat) : u = v := by
  rw [← toUInt32_toInt u, ← toUInt32_toInt v, h]

/-- Below `2 ^ 32` the conversion to `int` is injective. -/
theorem toInt_natCast_injective {m n : ℕ} (hm : m < 4294967296) (hn : n < 4294967296)
    (h : toInt m = toInt n) : m = n := by
  have := toInt_injective (u := UInt32.ofNat m) (v := UInt32.ofNat n) (by
    rwa [UInt32.toNat_ofNat_of_lt' hm, UInt32.toNat_ofNat_of_lt' hn])
  rw [← UInt32.toNat_ofNat_of_lt' hm, this, UInt32.toNat_ofNat_of_lt' hn]

/-- A length never grows in the conversion to `int`. -/
theorem toInt_natCast_le (n : ℕ) : toInt n ≤ n := by
  have hmod : (n : ℤ) % ((4294967296 : ℕ) : ℤ) ≤ n := by exact_mod_cast Nat.mod_le n 4294967296
  unfold toInt Int.bmod
  dsimp only
  split_ifs
  · exact hmod
  · linarith

/-- A length that the conversion makes positive has lost a multiple of `2 ^ 32`. -/
theorem toInt_natCast_of_le {n : ℕ} (h : 2147483648 ≤ n) : toInt n + 4294967296 ≤ n := by
  have hrange := (inRange_toInt n).2
  have hdvd : (4294967296 : ℤ) ∣ n - toInt n := Int.dvd_self_sub_bmod
  obtain ⟨k, hk⟩ := hdvd
  omega

theorem inRange_natCast {n : ℕ} (h : n < 2147483648) : InRange (n : ℤ) := by
  constructor
  · exact le_trans (by norm_num) (Int.natCast_nonneg n)
  · exact_mod_cast h

/-- A size that is an `int` can be lowered there. -/
theorem toSize_toInt_sub_one {n : ℕ} (hpos : 0 < n) (h : n < 2147483648) :
    toSize (toInt n - 1) = n - 1 := by
  rw [toInt_of_inRange (inRange_natCast h), toSize]
  omega

/-- **A size that is no `int` is lost there**: it comes back as one that is smaller by `2 ^ 32` at
least, or as one that no object has. -/
theorem toSize_toInt_sub_one_of_le {n : ℕ} (h : 2147483648 ≤ n) :
    toSize (toInt n - 1) + 4294967296 < n ∨ 9223372036854775808 ≤ toSize (toInt n - 1) := by
  have hrange := inRange_toInt n
  have hlost := toInt_natCast_of_le h
  have hlow := hrange.1
  unfold toSize
  rcases lt_or_ge 0 (toInt n) with hpos | hneg
  · left
    omega
  · right
    omega

end CInt
