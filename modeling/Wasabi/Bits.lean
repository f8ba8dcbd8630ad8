import Wasabi.Usize

namespace Wasabi
set_option autoImplicit true

/-- Shifts panic when the amount is not below the width of the type. -/
def shl (v : BitVec w) (n : Nat) : Except Fault (BitVec w) :=
  if n < w then .ok (v <<< n) else .error .overflow

def shr (v : BitVec w) (n : Nat) : Except Fault (BitVec w) :=
  if n < w then .ok (v >>> n) else .error .overflow

namespace Volatile

/-- The value that `write_bits` leaves in a register that held `reg`. -/
def writeBits (reg : BitVec w) (shift width : Nat) (value : BitVec w) :
    Except Fault (BitVec w) := do
  let mask := (← shl 1#w width) - 1#w
  if mask &&& value ≠ value then
    throw (.err "Value out of range")
  let mask ← shl mask shift
  return (← shl value shift) ||| (reg &&& ~~~mask)

def readBits (reg : BitVec w) (shift width : Nat) : Except Fault (BitVec w) := do
  let mask := (← shl 1#w width) - 1#w
  return (← shr reg shift) &&& mask

end Volatile

theorem mask_eq (hn : n < w) : (1#w <<< n) - 1#w = BitVec.ofNat w (2 ^ n - 1) := by
  apply BitVec.eq_of_toNat_eq
  have hpow : 2 ^ n < 2 ^ w := Nat.pow_lt_pow_right (by omega) hn
  have hpos : 0 < 2 ^ n := Nat.pow_pos (by omega)
  have hone : 1 < 2 ^ w := by omega
  have hlow : 2 ^ n - 1 < 2 ^ w := by omega
  have hsub : 2 ^ w - 1 + 2 ^ n = 2 ^ n - 1 + 2 ^ w := by omega
  simp only [BitVec.toNat_sub, BitVec.toNat_shiftLeft, BitVec.toNat_ofNat]
  rw [Nat.mod_eq_of_lt hone, Nat.one_shiftLeft, Nat.mod_eq_of_lt hpow, Nat.mod_eq_of_lt hlow,
    hsub, Nat.add_mod_right, Nat.mod_eq_of_lt hlow]

theorem mask_getLsbD (hn : n < w) (hi : i < w) :
    ((1#w <<< n) - 1#w).getLsbD i = decide (i < n) := by
  rw [mask_eq hn, BitVec.getLsbD_ofNat, Nat.testBit_two_pow_sub_one]
  simp [hi]

namespace Volatile

theorem writeBits_eq (hs : shift < w) (hw : width < w)
    (hv : ((1#w <<< width) - 1#w) &&& value = value) :
    writeBits reg shift width value =
      .ok ((value <<< shift) ||| (reg &&& ~~~(((1#w <<< width) - 1#w) <<< shift))) := by
  simp only [writeBits, shl, if_pos hw, if_pos hs, ok_bind, hv, ne_eq, not_true_eq_false, if_false]
  rfl

theorem readBits_eq (hs : shift < w) (hw : width < w) :
    readBits reg shift width = .ok ((reg >>> shift) &&& ((1#w <<< width) - 1#w)) := by
  simp only [readBits, shl, shr, if_pos hw, if_pos hs, ok_bind]
  rfl

end Volatile

/-- The conversion back to the type of the argument gives 0 when the value does not fit. -/
def extractBits (value : BitVec w) (shift width : Nat) : BitVec w :=
  let mask := (1#64 <<< min 63 width) - 1#64
  let shift := shift % 2 ^ 32
  let value := (if shift < 64 then value.setWidth 64 >>> shift else 0) &&& mask
  if value.toNat < 2 ^ w then value.setWidth w else 0

theorem mask_toNat (h : n < 64) : ((1#64 <<< n) - 1#64).toNat = 2 ^ n - 1 := by
  have hpow : 2 ^ n < 2 ^ 64 := Nat.pow_lt_pow_right (by omega) h
  have hpos : 0 < 2 ^ n := Nat.pow_pos (by omega)
  have hone : (1#64).toNat = 1 := rfl
  have hsub : 2 ^ 64 - 1 + 2 ^ n = 2 ^ n - 1 + 2 ^ 64 := by omega
  rw [BitVec.toNat_sub, BitVec.toNat_shiftLeft, hone, Nat.one_shiftLeft, Nat.mod_eq_of_lt hpow,
    hsub, Nat.add_mod_right, Nat.mod_eq_of_lt (by omega)]

/-- The shift is taken modulo 2^32, and at most 63 bits are kept. -/
theorem extractBits_eq (value : BitVec w) (hw : w ≤ 64) (shift width : Nat) :
    (extractBits value shift width).toNat =
      value.toNat / 2 ^ (shift % 2 ^ 32) % 2 ^ min 63 width := by
  have hv := value.isLt
  have hle : 2 ^ w ≤ 2 ^ 64 := Nat.pow_le_pow_right (by omega) hw
  have hbits : ((if shift % 2 ^ 32 < 64 then value.setWidth 64 >>> (shift % 2 ^ 32) else 0) &&&
      ((1#64 <<< min 63 width) - 1#64)).toNat =
      value.toNat / 2 ^ (shift % 2 ^ 32) % 2 ^ min 63 width := by
    rw [BitVec.toNat_and, mask_toNat (by omega), Nat.and_two_pow_sub_one_eq_mod]
    refine congrArg (· % 2 ^ min 63 width) ?_
    by_cases hs : shift % 2 ^ 32 < 64
    · rw [if_pos hs, BitVec.toNat_ushiftRight, BitVec.toNat_setWidth, Nat.mod_eq_of_lt (by omega),
        Nat.shiftRight_eq_div_pow]
    · have hpow : 2 ^ 64 ≤ 2 ^ (shift % 2 ^ 32) := Nat.pow_le_pow_right (by omega) (by omega)
      rw [if_neg hs, Nat.div_eq_of_lt (by omega)]
      rfl
  have hfit : value.toNat / 2 ^ (shift % 2 ^ 32) % 2 ^ min 63 width < 2 ^ w :=
    Nat.lt_of_le_of_lt ((Nat.mod_le _ _).trans (Nat.div_le_self _ _)) hv
  simp only [extractBits]
  rw [if_pos (by rwa [hbits]), BitVec.toNat_setWidth, hbits, Nat.mod_eq_of_lt hfit]

theorem extractBits_toNat (value : BitVec w) (hw : w ≤ 64) (hs : shift < 64) (hn : width ≤ 63) :
    (extractBits value shift width).toNat = value.toNat / 2 ^ shift % 2 ^ width := by
  have hmod : shift % 2 ^ 32 = shift := Nat.mod_eq_of_lt (by omega)
  rw [extractBits_eq value hw, hmod, Nat.min_eq_right hn]

theorem cpopNatRec_zero_iff (x : BitVec w) (n : Nat) :
    x.cpopNatRec n 0 = 0 ↔ ∀ i < n, x.getLsbD i = false := by
  induction n with
  | zero => simp
  | succ n ih =>
    rw [BitVec.cpopNatRec_succ, BitVec.cpopNatRec_eq, Nat.add_eq_zero_iff, ih]
    constructor
    · rintro ⟨hlow, hbit⟩ i hi
      rcases Nat.lt_succ_iff_lt_or_eq.1 hi with hi | rfl
      · exact hlow i hi
      · cases hx : x.getLsbD i with
        | false => rfl
        | true => rw [hx] at hbit; cases hbit
    · intro h
      refine ⟨fun i hi => h i (by omega), ?_⟩
      rw [h n (by omega)]
      rfl

theorem exists_shift_of_cpop {x : BitVec w} (h : x.cpop = 1) (hw : 1 < w) :
    ∃ n < w, x = 1#w <<< n := by
  have hrec : ∀ n, x.cpopNatRec n 0 = 1 →
      ∃ i < n, x.getLsbD i = true ∧ ∀ j < n, j ≠ i → x.getLsbD j = false := by
    intro n
    induction n with
    | zero =>
      intro hone
      cases hone
    | succ n ih =>
      intro hone
      rw [BitVec.cpopNatRec_succ, BitVec.cpopNatRec_eq] at hone
      cases hx : x.getLsbD n with
      | false =>
        rw [hx] at hone
        obtain ⟨i, hi, hbit, hrest⟩ := ih hone
        refine ⟨i, by omega, hbit, fun j hj hne => ?_⟩
        rcases Nat.lt_succ_iff_lt_or_eq.1 hj with hj | rfl
        · exact hrest j hj hne
        · exact hx
      | true =>
        rw [hx] at hone
        have hlow := (cpopNatRec_zero_iff x n).1 (Nat.succ.inj hone)
        exact ⟨n, by omega, hx, fun j hj hne => hlow j (by omega)⟩
  have hone : x.cpopNatRec w 0 = 1 := by
    rw [← BitVec.toNat_cpop, h]
    exact Nat.mod_eq_of_lt (Nat.one_lt_two_pow (by omega))
  obtain ⟨n, hn, hbit, hrest⟩ := hrec w hone
  refine ⟨n, hn, BitVec.eq_of_getLsbD_eq fun i hi => ?_⟩
  rw [BitVec.getLsbD_shiftLeft, BitVec.getLsbD_one]
  by_cases he : i = n
  · subst he
    rw [hbit]
    simp [hi, Nat.zero_lt_of_lt hi]
  · rw [hrest i hi he]
    by_cases hlt : i < n
    · simp [hlt]
    · have hne : i - n ≠ 0 := by omega
      simp [hne]

theorem land_bit_ne (v : BitVec w) (hn : n < w) : (v &&& 1#w <<< n != 0) = v.getLsbD n := by
  rw [← BitVec.twoPow_eq, BitVec.and_twoPow]
  cases v.getLsbD n with
  | false => exact bne_self_eq_false _
  | true =>
    refine bne_iff_ne.2 fun h => ?_
    have hbit := congrArg (fun x => BitVec.getLsbD x n) h
    simp [hn] at hbit

theorem land_bit_eq (v : BitVec w) (hn : n < w) : (v &&& 1#w <<< n == 0) = !v.getLsbD n := by
  rw [← land_bit_ne v hn, bne, Bool.not_not]

end Wasabi
