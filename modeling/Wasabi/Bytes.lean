import Mathlib.Tactic.Ring
import Mathlib.Data.Nat.Bits

namespace Wasabi
set_option autoImplicit true

abbrev Mem := Nat → UInt8

/-- The number stored least significant byte first in the `n` bytes from `a`. -/
def readLe (m : Mem) (a : Nat) : Nat → Nat
  | 0 => 0
  | n + 1 => (m a).toNat + 256 * readLe m (a + 1) n

def writeLe (m : Mem) (a n v : Nat) : Mem := fun b =>
  if a ≤ b ∧ b < a + n then UInt8.ofNat (v / 256 ^ (b - a)) else m b

def zeroFill (m : Mem) (a n : Nat) : Mem := fun b => if a ≤ b ∧ b < a + n then 0 else m b

def SameOn (m m' : Mem) (a n : Nat) : Prop := ∀ b, a ≤ b → b < a + n → m' b = m b

theorem SameOn.refl (m : Mem) (a n : Nat) : SameOn m m a n := fun _ _ _ => rfl

theorem SameOn.trans (h : SameOn m m' a n) (h' : SameOn m' m'' a n) : SameOn m m'' a n :=
  fun b hl hu => (h' b hl hu).trans (h b hl hu)

theorem SameOn.mono (h : SameOn m m' a n) (hl : a ≤ a') (hu : a' + n' ≤ a + n) :
    SameOn m m' a' n' :=
  fun b hb hb' => h b (by omega) (by omega)

theorem readLe_lt (m : Mem) (a n : Nat) : readLe m a n < 256 ^ n := by
  induction n generalizing a with
  | zero => simp [readLe]
  | succ n ih =>
    have hb : (m a).toNat < 256 := (m a).toNat_lt
    have hr := ih (a + 1)
    rw [readLe, pow_succ]
    omega

theorem readLe_add (m : Mem) (a n k : Nat) :
    readLe m a (n + k) = readLe m a n + 256 ^ n * readLe m (a + n) k := by
  induction n generalizing a with
  | zero => rw [readLe, pow_zero, Nat.one_mul, Nat.zero_add, Nat.zero_add, Nat.add_zero]
  | succ n ih =>
    have haddr : a + 1 + n = a + (n + 1) := by omega
    rw [Nat.succ_add, readLe, readLe, ih, haddr, pow_succ']
    ring

theorem readLe_congr (h : SameOn m m' a n) : readLe m' a n = readLe m a n := by
  induction n generalizing a with
  | zero => rfl
  | succ n ih =>
    rw [readLe, readLe, h a (by omega) (by omega), ih (h.mono (by omega) (by omega))]

theorem readLe_of_zero (h : ∀ b, a ≤ b → b < a + n → m b = 0) : readLe m a n = 0 := by
  induction n generalizing a with
  | zero => rfl
  | succ n ih =>
    rw [readLe, h a (by omega) (by omega), ih fun b hl hu => h b (by omega) (by omega)]
    rfl

theorem writeLe_same_on (h : a' + n' ≤ a ∨ a + n ≤ a') : SameOn m (writeLe m a n v) a' n' := by
  intro b hl hu
  rw [writeLe, if_neg (by omega)]

theorem zeroFill_same_on (h : a' + n' ≤ a ∨ a + n ≤ a') : SameOn m (zeroFill m a n) a' n' := by
  intro b hl hu
  rw [zeroFill, if_neg (by omega)]

theorem zeroFill_zero (hl : a ≤ b) (hu : b < a + n) : zeroFill m a n b = 0 := by
  rw [zeroFill, if_pos ⟨hl, hu⟩]

/-- Reading back the leading bytes of a longer store; the induction moves the start of the read. -/
theorem readLe_writeLe_from (m : Mem) (a n v k i : Nat) (hi : i + k ≤ n) :
    readLe (writeLe m a n v) (a + i) k = v / 256 ^ i % 256 ^ k := by
  induction k generalizing i with
  | zero => simp [readLe, Nat.mod_one]
  | succ k ih =>
    have hb : (writeLe m a n v (a + i)).toNat = v / 256 ^ i % 256 := by
      rw [writeLe, if_pos (by omega), Nat.add_sub_cancel_left, UInt8.toNat_ofNat']
    rw [readLe, hb, Nat.add_assoc, ih (i + 1) (by omega), pow_succ 256 i, ← Nat.div_div_eq_div_mul,
      pow_succ' 256 k, Nat.mod_mul]

theorem readLe_writeLe (m : Mem) (a n v : Nat) :
    readLe (writeLe m a n v) a n = v % 256 ^ n := by
  simpa using readLe_writeLe_from m a n v n 0 (by omega)

theorem readLe_writeLe_of_lt (h : v < 256 ^ n) : readLe (writeLe m a n v) a n = v := by
  rw [readLe_writeLe, Nat.mod_eq_of_lt h]

theorem readLe_writeLe_ne (h : a' + n' ≤ a ∨ a + n ≤ a') :
    readLe (writeLe m a n v) a' n' = readLe m a' n' :=
  readLe_congr (writeLe_same_on h)

theorem byte_readLe (m : Mem) (a n : Nat) (hi : i < n) :
    UInt8.ofNat (readLe m a n / 256 ^ i) = m (a + i) := by
  induction n generalizing a i with
  | zero => omega
  | succ n ih =>
    have hb : (m a).toNat < 256 := (m a).toNat_lt
    cases i with
    | zero =>
      apply UInt8.toNat_inj.1
      rw [readLe, pow_zero, Nat.div_one, UInt8.toNat_ofNat', Nat.add_mul_mod_self_left]
      exact Nat.mod_eq_of_lt hb
    | succ i =>
      have hrest : ((m a).toNat + 256 * readLe m (a + 1) n) / 256 = readLe m (a + 1) n := by omega
      rw [readLe, pow_succ', ← Nat.div_div_eq_div_mul, hrest, ih (a + 1) (by omega)]
      exact congrArg m (by omega)

end Wasabi
