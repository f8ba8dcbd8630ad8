import Mathlib.Algebra.Order.Field.Rat
import Mathlib.Algebra.Order.Ring.Abs
import Mathlib.Tactic.FieldSimp
import Mathlib.Tactic.Linarith
import Mathlib.Tactic.Ring

namespace Wasabi
set_option autoImplicit true

/-- The integer closest to `n / d`, the upper one of two. -/
def roundDiv (n d : Int) : Int := (2 * n + d) / (2 * d)

section
variable {n d k : Int} (hd : 0 < d)
include hd

theorem roundDiv_bounds (n : Int) :
    2 * d * roundDiv n d ≤ 2 * n + d ∧ 2 * n + d < 2 * d * roundDiv n d + 2 * d := by
  have hdiv := Int.mul_ediv_add_emod (2 * n + d) (2 * d)
  have hlo := Int.emod_nonneg (2 * n + d) (b := 2 * d) (by omega)
  have hhi := Int.emod_lt_of_pos (2 * n + d) (b := 2 * d) (by omega)
  unfold roundDiv
  omega

theorem abs_roundDiv_sub_le (n : Int) : |(roundDiv n d : ℚ) - n / d| ≤ 1 / 2 := by
  obtain ⟨hlo, hhi⟩ := roundDiv_bounds hd n
  have hd' : (0 : ℚ) < d := by exact_mod_cast hd
  have hlo' : (2 * d * roundDiv n d : ℚ) ≤ 2 * n + d := by exact_mod_cast hlo
  have hhi' : (2 * n + d : ℚ) < 2 * d * roundDiv n d + 2 * d := by exact_mod_cast hhi
  have hn : (n : ℚ) = n / d * d := by field_simp
  rw [abs_le]
  constructor
  · nlinarith
  · nlinarith

theorem roundDiv_mul_self (k : Int) : roundDiv (k * d) d = k := by
  have hsum : 2 * (k * d) + d = d + 2 * d * k := by ring
  rw [roundDiv, hsum, Int.add_mul_ediv_left _ _ (by omega),
    Int.ediv_eq_zero_of_lt (by omega) (by omega), Int.zero_add]

theorem roundDiv_le (h : n ≤ m) : roundDiv n d ≤ roundDiv m d :=
  Int.ediv_le_ediv (by omega) (by omega)

/-- The quotient grows by at most one when the numerator grows by at most the denominator. -/
theorem roundDiv_add_le (h : k ≤ d) : roundDiv (n + k) d ≤ roundDiv n d + 1 := by
  have hnext : 2 * (n + d) + d = 2 * n + d + 2 * d * 1 := by ring
  calc
    roundDiv (n + k) d ≤ roundDiv (n + d) d := roundDiv_le hd (by omega)
    _ = roundDiv n d + 1 := by
      rw [roundDiv, hnext, Int.add_mul_ediv_left _ _ (by omega)]
      rfl

end

end Wasabi
