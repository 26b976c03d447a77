import Mathlib.Data.Int.Log
import Mathlib.Algebra.Order.Floor.Semiring
import Mathlib.Data.Rat.Floor
import Mathlib.Tactic.Linarith
import Mathlib.Tactic.NormNum

namespace Binary64

/-- The nearest integer, a tie going to the even one. -/
def roundEven (q : ℚ) : ℤ :=
  if q - ⌊q⌋ < 1 / 2 then ⌊q⌋
  else if 1 / 2 < q - ⌊q⌋ then ⌊q⌋ + 1
  else if ⌊q⌋ % 2 = 0 then ⌊q⌋ else ⌊q⌋ + 1

/-- The exponent of the last of the 53 bits of a significand, or that of a subnormal. -/
def exponent (q : ℚ) : ℤ :=
  max (Int.log 2 |q| - 52) (-1074)

/-- Round to nearest, on a range where nothing overflows. -/
def round (q : ℚ) : ℚ :=
  roundEven (q / 2 ^ exponent q) * 2 ^ exponent q

theorem roundEven_intCast (z : ℤ) : roundEven z = z := by
  rw [roundEven, Int.floor_intCast, sub_self, if_pos (by norm_num)]

theorem round_of_eq_mul {q : ℚ} {z : ℤ} (h : q = z * 2 ^ exponent q) : round q = q := by
  have hplace : (2 : ℚ) ^ exponent q ≠ 0 := zpow_ne_zero _ two_ne_zero
  have hdiv : q / 2 ^ exponent q = z := (div_eq_iff hplace).mpr h
  rw [round, hdiv, roundEven_intCast]
  exact h.symm

theorem exponent_natCast_nonpos {n : Nat} (h : n < 2 ^ 53) : exponent n ≤ 0 := by
  have hlog : Int.log 2 |(n : ℚ)| < 53 := by
    rw [Nat.abs_cast, Int.log_natCast]
    have hsmall : Nat.log 2 n < 53 := Nat.log_lt_of_lt_pow' (by decide) h
    exact_mod_cast hsmall
  exact max_le (by linarith) (by norm_num)

/-- An integer of 53 bits is a value of the format. -/
theorem round_natCast {n : Nat} (h : n < 2 ^ 53) : round n = n := by
  obtain ⟨k, hk⟩ := Int.eq_ofNat_of_zero_le (neg_nonneg.mpr (exponent_natCast_nonpos h))
  refine round_of_eq_mul (z := n * 2 ^ k) ?_
  have hexponent : exponent n = -(k : ℤ) := by linarith
  rw [hexponent, zpow_neg, zpow_natCast]
  push_cast
  rw [mul_assoc, mul_inv_cancel₀ (pow_ne_zero k two_ne_zero), mul_one]

end Binary64
