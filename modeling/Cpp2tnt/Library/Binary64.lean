import Mathlib.Algebra.Order.Field.Rat
import Mathlib.Tactic.Linarith
import Mathlib.Tactic.NormNum
import Mathlib.Tactic.Positivity

/-!
Double precision numbers by their bits. The bits of a finite number stand for an
exact rational, a whole multiple of the smallest subnormal one. The bounds are
those of the double and the single format.
-/

namespace Binary64

def exponent (bits : Nat) : Nat := bits / 2 ^ 52 % 2 ^ 11

def fraction (bits : Nat) : Nat := bits % 2 ^ 52

def IsFinite (bits : Nat) : Prop := exponent bits ≠ 2047

instance (bits : Nat) : Decidable (IsFinite bits) := inferInstanceAs (Decidable (_ ≠ _))

def units (bits : Nat) : Nat :=
  if exponent bits = 0 then fraction bits
  else (2 ^ 52 + fraction bits) * 2 ^ (exponent bits - 1)

def value (bits : Nat) : ℚ :=
  if 2 ^ 63 ≤ bits then -((units bits : ℚ) / 2 ^ 1074) else (units bits : ℚ) / 2 ^ 1074

def maxDouble : ℚ := (2 ^ 53 - 1) * 2 ^ 971

def minDouble : ℚ := 1 / 2 ^ 1022

/-- `FLT_MAX` and `FLT_MIN`. -/
def maxSingle : ℚ := (2 ^ 24 - 1) * 2 ^ 104

def minSingle : ℚ := 1 / 2 ^ 126

/-! Stated for any exponents: the numerals of the bounds are never evaluated. -/

theorem inv_pow_le_div_iff (count : Nat) {power total : Nat} (within : power ≤ total) :
    (1 : ℚ) / 2 ^ power ≤ (count : ℚ) / 2 ^ total ↔ 2 ^ (total - power) ≤ count := by
  have positive : ∀ exponent : Nat, (0 : ℚ) < 2 ^ exponent := fun exponent => pow_pos two_pos exponent
  have split : (2 : ℚ) ^ total = 2 ^ (total - power) * 2 ^ power := by
    rw [← pow_add, Nat.sub_add_cancel within]
  rw [split, div_le_div_iff₀ (positive _) (mul_pos (positive _) (positive _)), one_mul,
    mul_le_mul_iff_left₀ (positive _)]
  exact_mod_cast Iff.rfl

theorem div_le_mul_pow (count factor power total : Nat) (small : count ≤ factor * 2 ^ (power + total)) :
    (count : ℚ) / 2 ^ total ≤ factor * 2 ^ power := by
  rw [div_le_iff₀ (pow_pos two_pos total), mul_assoc, ← pow_add]
  exact_mod_cast small

theorem magnitude_nonneg (bits : Nat) : (0 : ℚ) ≤ (units bits : ℚ) / 2 ^ 1074 :=
  div_nonneg (Nat.cast_nonneg _) (le_of_lt (pow_pos two_pos 1074))

theorem inv_pow_le_value_iff (bits : Nat) {power : Nat} (within : power ≤ 1074) :
    1 / 2 ^ power ≤ value bits ↔ bits < 2 ^ 63 ∧ 2 ^ (1074 - power) ≤ units bits := by
  unfold value
  by_cases negative : 2 ^ 63 ≤ bits
  · rw [if_pos negative]
    refine iff_of_false ?_ fun both => Nat.not_lt.mpr negative both.1
    intro below
    have small : (0 : ℚ) < 1 / 2 ^ power := div_pos one_pos (pow_pos two_pos power)
    exact absurd (le_trans below (neg_nonpos.mpr (magnitude_nonneg bits))) (not_le_of_gt small)
  · rw [if_neg negative, and_iff_right (Nat.lt_of_not_le negative)]
    exact inv_pow_le_div_iff (units bits) within

theorem units_le (bits : Nat) {power : Nat} (within : exponent bits - 1 ≤ power) :
    units bits ≤ (2 ^ 53 - 1) * 2 ^ power := by
  have front : fraction bits < 2 ^ 52 := Nat.mod_lt _ (by decide)
  unfold units
  split
  · calc fraction bits ≤ (2 ^ 53 - 1) * 1 := by omega
      _ ≤ (2 ^ 53 - 1) * 2 ^ power := Nat.mul_le_mul_left _ Nat.one_le_two_pow
  · exact Nat.mul_le_mul (by omega) (Nat.pow_le_pow_right (by decide) within)

theorem value_le_max (bits : Nat) (finite : IsFinite bits) : value bits ≤ maxDouble := by
  have narrow : exponent bits < 2 ^ 11 := Nat.mod_lt _ (by decide)
  have power : exponent bits - 1 ≤ 971 + 1074 := by
    unfold IsFinite at finite
    omega
  have positive := div_le_mul_pow (units bits) (2 ^ 53 - 1) 971 1074 (units_le bits power)
  have factor : ((2 ^ 53 - 1 : Nat) : ℚ) = 2 ^ 53 - 1 := by norm_num
  have magnitude := magnitude_nonneg bits
  rw [factor] at positive
  unfold value maxDouble
  split
  · exact le_trans (neg_nonpos.mpr magnitude) (le_trans magnitude positive)
  · exact positive

theorem min_le_value_iff (bits : Nat) :
    minDouble ≤ value bits ↔ 2 ^ 52 ≤ bits ∧ bits < 2 ^ 63 := by
  have normal : 2 ^ (1074 - 1022) ≤ units bits ↔ exponent bits ≠ 0 := by
    have front : fraction bits < 2 ^ 52 := Nat.mod_lt _ (by decide)
    unfold units
    split
    · omega
    · rename_i some
      refine iff_of_true ?_ some
      calc 2 ^ (1074 - 1022) ≤ (2 ^ 52 + fraction bits) * 1 := by omega
        _ ≤ (2 ^ 52 + fraction bits) * 2 ^ (exponent bits - 1) :=
          Nat.mul_le_mul_left _ Nat.one_le_two_pow
  rw [minDouble, inv_pow_le_value_iff bits (by decide), normal, and_comm]
  apply and_congr_left
  intro positive
  unfold exponent
  omega

end Binary64
