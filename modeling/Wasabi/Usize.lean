import Mathlib.Data.Nat.Log
import Mathlib.Data.Nat.Bitwise
import Mathlib.Tactic.Ring

namespace Wasabi
set_option autoImplicit true

/-- How a call can end other than by returning a value: an `Err` passed up by `?`, or a panic. -/
inductive Fault where
  | err (msg : String)
  | overflow
  | assertion
  | unwrap
  | outOfBounds
  | outOfMemory
  | diverged
  deriving DecidableEq, Repr

@[simp] theorem ok_bind (a : α) (f : α → Except ε β) : (Except.ok a >>= f) = f a := rfl

theorem exists_of_bind {x : Except ε α} {f : α → Except ε β} (h : (x >>= f) = .ok b) :
    ∃ a, x = .ok a ∧ f a = .ok b := by
  cases x with
  | error e => cases h
  | ok a => exact ⟨a, rfl, h⟩

def unwrap : Except Fault α → Except Fault α
  | .error (.err _) => .error .unwrap
  | r => r

@[simp] theorem unwrap_ok (a : α) : unwrap (.ok a) = .ok a := rfl

/-- Addition on `usize` and `u64`, which panics past the end of the range. -/
def checkedAdd (a b : Nat) : Except Fault Nat :=
  if a + b < 2 ^ 64 then .ok (a + b) else .error .overflow

def checkedSub (a b : Nat) : Except Fault Nat :=
  if b ≤ a then .ok (a - b) else .error .overflow

def checkedMul (a b : Nat) : Except Fault Nat :=
  if a * b < 2 ^ 64 then .ok (a * b) else .error .overflow

theorem checkedAdd_ok (h : a + b < 2 ^ 64) : checkedAdd a b = .ok (a + b) := if_pos h

theorem checkedSub_ok (h : b ≤ a) : checkedSub a b = .ok (a - b) := if_pos h

theorem checkedMul_ok (h : a * b < 2 ^ 64) : checkedMul a b = .ok (a * b) := if_pos h

theorem checkedAdd_eq (h : checkedAdd a b = .ok c) : c = a + b := by
  unfold checkedAdd at h
  split at h
  · cases h
    rfl
  · cases h

def complement (a : Nat) : Nat := (2 ^ 64 - 1) ^^^ a

theorem complement_eq_sub (h : x < 2 ^ 64) : complement x = 2 ^ 64 - 1 - x := by
  have hsub : 2 ^ 64 - 1 - x = 2 ^ 64 - (x + 1) := by omega
  apply Nat.eq_of_testBit_eq
  intro i
  rw [complement, hsub, Nat.testBit_two_pow_sub_succ h, Nat.testBit_xor,
    Nat.testBit_two_pow_sub_one]
  by_cases hi : i < 64
  · rw [decide_eq_true hi, Bool.true_xor, Bool.true_and]
  · have hbit : x.testBit i = false :=
      Nat.testBit_lt_two_pow (lt_of_lt_of_le h (Nat.pow_le_pow_right (by omega) (by omega)))
    rw [decide_eq_false hi, hbit]
    rfl

theorem land_xor_pow (hx : x < 2 ^ w) (hk : k ≤ w) :
    x &&& ((2 ^ w - 1) ^^^ (2 ^ k - 1)) = x / 2 ^ k * 2 ^ k := by
  apply Nat.eq_of_testBit_eq
  intro i
  simp only [Nat.testBit_and, Nat.testBit_xor, Nat.testBit_two_pow_sub_one,
    Nat.testBit_mul_two_pow, Nat.testBit_div_two_pow]
  by_cases hi : k ≤ i
  · have hik : i - k + k = i := by omega
    by_cases hu : i < w
    · simp [hi, hu, hik]
    · have hbit : x.testBit i = false :=
        Nat.testBit_lt_two_pow (lt_of_lt_of_le hx (Nat.pow_le_pow_right (by omega) (by omega)))
      simp [hi, hik, hbit]
  · have hu : i < w := by omega
    have hki : i < k := by omega
    simp [hi, hu, hki]

theorem land_complement_mask (hx : x < 2 ^ 64) (ha : ∃ k ≤ 64, align = 2 ^ k) :
    x &&& complement (align - 1) = x / align * align := by
  obtain ⟨k, hk, rfl⟩ := ha
  exact land_xor_pow hx hk

theorem lor_eq_add (hx : x % 4096 = 0) (ha : a < 4096) : x ||| a = x + a := by
  have h := Nat.two_pow_add_eq_or_of_lt (i := 12) ha (x / 4096)
  have hmul : 2 ^ 12 * (x / 4096) = x := by omega
  rw [hmul] at h
  exact h.symm

def leadingZeros (v : Nat) : Nat := if v = 0 then 64 else 63 - Nat.log2 v

end Wasabi
