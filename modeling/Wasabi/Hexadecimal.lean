import Mathlib.Data.List.Basic
import Mathlib.Tactic.Ring

namespace Wasabi
set_option autoImplicit true

def hexChar (d : Nat) : Char :=
  if d < 10 then Char.ofNat ('0'.toNat + d) else Char.ofNat ('A'.toNat + d - 10)

/-- `{:X}`. -/
def upperHex (n : Nat) : List Char :=
  if n < 16 then [hexChar n] else upperHex (n / 16) ++ [hexChar (n % 16)]

/-- `{:0kX}`, for a width `k`. -/
def zeroPadded (k n : Nat) : List Char := (upperHex n).leftpad k '0'

def hexDigits : Nat → Nat → List Char
  | 0, _ => []
  | k + 1, n => hexDigits k (n / 16) ++ [hexChar (n % 16)]

theorem hexDigits_zero (k : Nat) : hexDigits k 0 = List.replicate k '0' := by
  induction k with
  | zero => rfl
  | succ k ih =>
    rw [hexDigits, ih, List.replicate_succ']
    rfl

theorem leftpad_concat (k : Nat) (a b : Char) (l : List Char) :
    (l ++ [b]).leftpad (k + 1) a = l.leftpad k a ++ [b] := by
  rw [List.leftpad, List.leftpad, List.length_append, List.length_singleton,
    Nat.add_sub_add_right, List.append_assoc]

theorem zeroPadded_eq (h : n < 16 ^ (k + 1)) : zeroPadded (k + 1) n = hexDigits (k + 1) n := by
  induction k generalizing n with
  | zero =>
    have hn : n < 16 := h
    rw [zeroPadded, upperHex, if_pos hn, hexDigits, Nat.mod_eq_of_lt hn]
    rfl
  | succ k ih =>
    rw [zeroPadded, upperHex]
    by_cases hn : n < 16
    · rw [if_pos hn, hexDigits, Nat.div_eq_of_lt hn, Nat.mod_eq_of_lt hn, hexDigits_zero]
      rfl
    · have hdiv : n / 16 < 16 ^ (k + 1) := by
        rw [Nat.pow_succ] at h
        omega
      rw [if_neg hn, leftpad_concat, hexDigits]
      exact congrArg (· ++ [hexChar (n % 16)]) (ih hdiv)

end Wasabi
