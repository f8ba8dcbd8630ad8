import Wasabi.Usize

namespace Wasabi
set_option autoImplicit true

namespace I64

def InRange (n : Int) : Prop := -2 ^ 63 ≤ n ∧ n < 2 ^ 63

instance (n : Int) : Decidable (InRange n) := inferInstanceAs (Decidable (_ ∧ _))

/-- Arithmetic on `i64` panics when the result leaves the range. -/
def ofInt (n : Int) : Except Fault Int := if InRange n then .ok n else .error .overflow

def add (a b : Int) : Except Fault Int := ofInt (a + b)

def sub (a b : Int) : Except Fault Int := ofInt (a - b)

def mul (a b : Int) : Except Fault Int := ofInt (a * b)

def abs (a : Int) : Except Fault Int := ofInt a.natAbs

def div (a b : Int) : Except Fault Int :=
  if b = 0 then .error .assertion else ofInt (a.tdiv b)

def asUsize (n : Int) : Nat := (n % 2 ^ 64).toNat

def range (a b : Int) : List Int := (List.range (b - a).toNat).map fun (i : Nat) => a + i

theorem ofInt_ok (h : InRange n) : ofInt n = .ok n := if_pos h

theorem add_ok (h : InRange (a + b)) : add a b = .ok (a + b) := ofInt_ok h

theorem sub_ok (h : InRange (a - b)) : sub a b = .ok (a - b) := ofInt_ok h

theorem mul_ok (h : InRange (a * b)) : mul a b = .ok (a * b) := ofInt_ok h

theorem asUsize_eq (hlo : 0 ≤ n) (hhi : n < 2 ^ 63) : asUsize n = n.toNat := by
  rw [asUsize, Int.emod_eq_of_lt hlo (by omega)]

theorem mem_range {a b x : Int} : x ∈ range a b ↔ a ≤ x ∧ x < b := by
  rw [range, List.mem_map]
  constructor
  · rintro ⟨i, hi, rfl⟩
    have hlt := List.mem_range.1 hi
    omega
  · rintro ⟨hlo, hhi⟩
    exact ⟨(x - a).toNat, List.mem_range.2 (by omega), by omega⟩

end I64

end Wasabi
