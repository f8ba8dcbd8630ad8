import Wasabi.BitField
import Wasabi.Outcome

namespace Wasabi
set_option autoImplicit true

namespace Volatile

def writeBitsTo (shift width : Nat) (value : BitVec w) : EStateM Fault (BitVec w) Unit := do
  let one ← MonadExcept.ofExcept (shl 1#w width)
  let mask := one - 1#w
  if mask &&& value ≠ value then
    throw (.err "Value out of range")
  let mask ← MonadExcept.ofExcept (shl mask shift)
  let value ← MonadExcept.ofExcept (shl value shift)
  let reg ← get
  set (value ||| (reg &&& ~~~mask))

end Volatile

def RangesApart (shift width shift' width' : Nat) : Prop :=
  ∀ i, shift ≤ i → i < shift + width → ¬(shift' ≤ i ∧ i < shift' + width')

section
variable {w : Nat} {x y v : BitVec w} {shift width : Nat}

theorem Volatile.writeBitsTo_eq (shift width : Nat) (v x : BitVec w) :
    Volatile.writeBitsTo shift width v x = match Volatile.writeBits x shift width v with
      | .ok x' => .ok () x'
      | .error e => .error e x := by
  unfold Volatile.writeBitsTo Volatile.writeBits
  cases shl 1#w width with
  | error e => rfl
  | ok one =>
    rw [ofExcept_bind rfl, ok_bind]
    dsimp only
    by_cases hv : (one - 1#w) &&& v ≠ v
    · rw [if_pos hv, if_pos hv]
      rfl
    · rw [if_neg hv, if_neg hv]
      cases shl (one - 1#w) shift with
      | error e => rfl
      | ok mask =>
        cases shl v shift with
        | error e => rfl
        | ok value => rfl

theorem readBits_congr (h : ∀ i, shift ≤ i → i < shift + width → x.getLsbD i = y.getLsbD i) :
    Volatile.readBits x shift width = Volatile.readBits y shift width := by
  by_cases hw : width < w
  · by_cases hs : shift < w
    · rw [Volatile.readBits_eq hs hw, Volatile.readBits_eq hs hw]
      refine congrArg Except.ok (BitVec.eq_of_getLsbD_eq fun i hi => ?_)
      rw [BitVec.getLsbD_and, BitVec.getLsbD_and, mask_getLsbD hw hi, BitVec.getLsbD_ushiftRight,
        BitVec.getLsbD_ushiftRight]
      by_cases hlt : i < width
      · rw [h (shift + i) (by omega) (by omega)]
      · rw [decide_eq_false hlt, Bool.and_false, Bool.and_false]
    · unfold Volatile.readBits shr
      rw [if_neg hs, if_neg hs]
  · unfold Volatile.readBits shl
    rw [if_neg hw]
    rfl

theorem readBits_toNat (hs : shift < w) (hw : width < w) : ∃ r : BitVec w,
    Volatile.readBits x shift width = .ok r ∧ r.toNat = x.toNat / 2 ^ shift % 2 ^ width := by
  have hpow : 2 ^ width < 2 ^ w := Nat.pow_lt_pow_right (by omega) hw
  have hpos : 0 < 2 ^ width := Nat.pow_pos (by omega)
  refine ⟨_, Volatile.readBits_eq hs hw, ?_⟩
  rw [mask_eq hw, BitVec.toNat_and, BitVec.toNat_ushiftRight, BitVec.toNat_ofNat,
    Nat.mod_eq_of_lt (by omega), Nat.shiftRight_eq_div_pow]
  exact Nat.and_two_pow_sub_one_eq_mod _ _

theorem readBits_ok (h : Volatile.readBits x shift width = .ok r) : shift < w ∧ width < w := by
  unfold Volatile.readBits shl shr at h
  by_cases hw : width < w
  · by_cases hs : shift < w
    · exact ⟨hs, hw⟩
    · rw [if_pos hw, if_neg hs] at h
      cases h
  · rw [if_neg hw] at h
    cases h

namespace BitField

variable {f : BitField w}

theorem readBits_write (hs : f.shift < w) (hw : f.width < w) (hv : v.toNat < 2 ^ f.width) :
    Volatile.readBits (f.write v x) f.shift f.width = .ok v := by
  rw [Volatile.readBits_eq hs hw]
  refine congrArg Except.ok (BitVec.eq_of_getLsbD_eq fun i hi => ?_)
  have hf := f.fits
  rw [BitVec.getLsbD_and, mask_getLsbD hw hi, BitVec.getLsbD_ushiftRight]
  by_cases hlt : i < f.width
  · have hc : f.Covers (f.shift + i) := ⟨by omega, by omega⟩
    rw [decide_eq_true hlt, Bool.and_true, getLsbD_write_of_lt hv (by omega), if_pos hc,
      Nat.add_sub_cancel_left]
  · rw [decide_eq_false hlt, Bool.and_false, getLsbD_of_lt hv (Nat.not_lt.1 hlt)]

theorem readBits_write_apart (hv : v.toNat < 2 ^ f.width)
    (h : RangesApart f.shift f.width shift width) :
    Volatile.readBits (f.write v x) shift width = Volatile.readBits x shift width := by
  refine readBits_congr fun i hlo hhi => ?_
  by_cases hi : i < w
  · rw [getLsbD_write_of_lt hv hi, if_neg fun hc => h i hc.1 hc.2 ⟨hlo, hhi⟩]
  · rw [BitVec.getLsbD_of_ge _ _ (Nat.not_lt.1 hi), BitVec.getLsbD_of_ge _ _ (Nat.not_lt.1 hi)]

theorem writeBits_wide (hw : f.width < w) (hv : 2 ^ f.width ≤ v.toNat) :
    Volatile.writeBits x f.shift f.width v = .error (.err "Value out of range") := by
  have hne : ((1#w <<< f.width) - 1#w) &&& v ≠ v := by
    intro he
    have hmod : v.toNat % 2 ^ f.width < 2 ^ f.width := Nat.mod_lt _ (Nat.pow_pos (by omega))
    have hpow : 2 ^ f.width < 2 ^ w := Nat.pow_lt_pow_right (by omega) hw
    rw [mask_eq hw] at he
    have hnat := congrArg BitVec.toNat he
    rw [BitVec.toNat_and, BitVec.toNat_ofNat, Nat.mod_eq_of_lt (by omega), Nat.and_comm,
      Nat.and_two_pow_sub_one_eq_mod] at hnat
    omega
  simp only [Volatile.writeBits, shl, if_pos hw, ok_bind, if_pos hne]
  rfl

end BitField

end

/-- A value that is too wide is refused, any other one reads back, and nothing else changes. -/
structure FieldAccess (reg v : BitVec w) (shift width : Nat) : Prop where
  error_iff : (∃ e reg', Volatile.writeBitsTo shift width v reg = .error e reg') ↔
    2 ^ width ≤ v.toNat
  error : ∀ e reg', Volatile.writeBitsTo shift width v reg = .error e reg' →
    e = .err "Value out of range" ∧ reg' = reg
  ok : v.toNat < 2 ^ width → ∃ reg', Volatile.writeBitsTo shift width v reg = .ok () reg' ∧
    Volatile.readBits reg' shift width = .ok v ∧
    ∀ shift' width', RangesApart shift width shift' width' →
      Volatile.readBits reg' shift' width' = Volatile.readBits reg shift' width'

theorem write_bits_inverse_framed (reg v : BitVec w) (shift width : Nat) (hpos : 1 ≤ width)
    (hlt : width < w) (hfits : shift + width ≤ w) : FieldAccess reg v shift width := by
  let f : BitField w := ⟨shift, width, hfits⟩
  have hs : f.shift < w := show shift < w by omega
  by_cases hv : v.toNat < 2 ^ width
  · have hok : Volatile.writeBitsTo shift width v reg = .ok () (f.write v reg) := by
      rw [Volatile.writeBitsTo_eq, f.writeBits_write hs hlt hv]
    refine ⟨iff_of_false ?_ (Nat.not_le.2 hv), fun e reg' h => ?_, fun _ => ⟨_, hok,
      f.readBits_write hs hlt hv, fun _ _ h => f.readBits_write_apart hv h⟩⟩
    · rintro ⟨e, reg', h⟩
      cases hok.symm.trans h
    · cases hok.symm.trans h
  · have herr : Volatile.writeBitsTo shift width v reg =
        .error (.err "Value out of range") reg := by
      rw [Volatile.writeBitsTo_eq, f.writeBits_wide hlt (Nat.not_lt.1 hv)]
    refine ⟨iff_of_true ⟨_, _, herr⟩ (Nat.not_lt.1 hv), fun e reg' h => ?_, fun h => absurd h hv⟩
    cases herr.symm.trans h
    exact ⟨rfl, rfl⟩

theorem write_bits_inverse_framed_trb_type : FieldAccess 0xffffffff#32 9#32 10 6 :=
  write_bits_inverse_framed 0xffffffff#32 9#32 10 6 (by decide) (by decide) (by decide)

/-- Extraction is a quotient and a remainder, and agrees with reading a register that holds the
value. -/
structure ExtractsBits (value : BitVec w) (shift width : Nat) : Prop where
  arithmetic : (extractBits value shift width).toNat = value.toNat / 2 ^ shift % 2 ^ width
  agrees : ∀ r, Volatile.readBits value shift width = .ok r → extractBits value shift width = r

/-- The whole of a value with its highest bit set is not extracted. -/
theorem extractBits_small_iff (value : BitVec w) (hw : w ≤ 64) (hs : shift < 2 ^ 32) :
    (extractBits value shift width).toNat = value.toNat / 2 ^ shift % 2 ^ width ↔
      ¬(shift = 0 ∧ 64 ≤ width ∧ 2 ^ 63 ≤ value.toNat) := by
  have hmod : shift % 2 ^ 32 = shift := Nat.mod_eq_of_lt hs
  have hv := value.isLt
  have hle : 2 ^ w ≤ 2 ^ 64 := Nat.pow_le_pow_right (by omega) hw
  rw [extractBits_eq value hw, hmod]
  by_cases hwidth : width ≤ 63
  · exact iff_of_true (by rw [Nat.min_eq_right hwidth]) (by omega)
  · have hpow : 2 ^ 64 ≤ 2 ^ width := Nat.pow_le_pow_right (by omega) (by omega)
    have hdiv : value.toNat / 2 ^ shift ≤ value.toNat := Nat.div_le_self _ _
    rw [Nat.min_eq_left (by omega), Nat.mod_eq_of_lt (a := value.toNat / 2 ^ shift)
      (b := 2 ^ width) (by omega)]
    by_cases hlarge : 2 ^ 63 ≤ value.toNat / 2 ^ shift
    · have hzero : shift = 0 := by
        by_contra hne
        have htwo : 2 ^ 1 ≤ 2 ^ shift := Nat.pow_le_pow_right (by omega) (by omega)
        have hhalf : value.toNat / 2 ^ shift ≤ value.toNat / 2 ^ 1 :=
          Nat.div_le_div_left htwo (by decide)
        omega
      have hlt : value.toNat / 2 ^ shift % 2 ^ 63 < 2 ^ 63 := Nat.mod_lt _ (by decide)
      exact iff_of_false (by omega) (not_not.2 ⟨hzero, by omega, by omega⟩)
    · refine iff_of_true (Nat.mod_eq_of_lt (Nat.not_le.1 hlarge)) ?_
      rintro ⟨rfl, _, h63⟩
      rw [Nat.pow_zero, Nat.div_one] at hlarge
      exact hlarge h63

theorem field_eq_zero_iff (value : BitVec w) (shift width : Nat) :
    value.toNat / 2 ^ shift % 2 ^ width = 0 ↔
      ∀ i, shift ≤ i → i < shift + width → value.getLsbD i = false := by
  have hbit : ∀ i, (value.toNat / 2 ^ shift % 2 ^ width).testBit i =
      (decide (i < width) && value.getLsbD (shift + i)) := by
    intro i
    rw [Nat.testBit_mod_two_pow, Nat.testBit_div_two_pow, Nat.add_comm]
    rfl
  constructor
  · intro h i hlo hhi
    have hi := hbit (i - shift)
    rw [h, Nat.zero_testBit, decide_eq_true (show i - shift < width by omega), Bool.true_and,
      Nat.add_sub_cancel' hlo] at hi
    exact hi.symm
  · intro h
    refine Nat.eq_of_testBit_eq fun i => ?_
    rw [hbit, Nat.zero_testBit]
    by_cases hi : i < width
    · rw [h (shift + i) (by omega) (by omega), Bool.and_false]
    · rw [decide_eq_false hi, Bool.false_and]

/-- A shift that does not fit in 32 bits should leave nothing. -/
theorem extractBits_large_iff (value : BitVec w) (hw : w ≤ 64) (hs : 2 ^ 32 ≤ shift) :
    (extractBits value shift width).toNat = value.toNat / 2 ^ shift % 2 ^ width ↔
      ∀ i, shift % 2 ^ 32 ≤ i → i < shift % 2 ^ 32 + min 63 width → value.getLsbD i = false := by
  have hv : value.toNat < 2 ^ shift :=
    lt_of_lt_of_le value.isLt (Nat.pow_le_pow_right (by omega) (by omega))
  rw [extractBits_eq value hw, Nat.div_eq_of_lt hv, Nat.zero_mod]
  exact field_eq_zero_iff value _ _

theorem extractBits_readBits (value : BitVec w) (hw : w ≤ 64)
    (h : Volatile.readBits value shift width = .ok r) : extractBits value shift width = r := by
  obtain ⟨hs, hwidth⟩ := readBits_ok h
  obtain ⟨r', hr', hnat⟩ := readBits_toNat (x := value) hs hwidth
  cases hr'.symm.trans h
  exact BitVec.eq_of_toNat_eq
    ((extractBits_toNat value hw (by omega) (by omega)).trans hnat.symm)

theorem extract_bits_iff (value : BitVec w) (hw : w ≤ 64) (shift width : Nat) :
    ExtractsBits value shift width ↔
      (shift < 2 ^ 32 → ¬(shift = 0 ∧ 64 ≤ width ∧ 2 ^ 63 ≤ value.toNat)) ∧
      (2 ^ 32 ≤ shift → ∀ i, shift % 2 ^ 32 ≤ i → i < shift % 2 ^ 32 + min 63 width →
        value.getLsbD i = false) := by
  constructor
  · intro h
    exact ⟨fun hs => (extractBits_small_iff value hw hs).1 h.arithmetic,
      fun hs => (extractBits_large_iff value hw hs).1 h.arithmetic⟩
  · rintro ⟨hsmall, hlarge⟩
    refine ⟨?_, fun r h => extractBits_readBits value hw h⟩
    rcases Nat.lt_or_ge shift (2 ^ 32) with hs | hs
    · exact (extractBits_small_iff value hw hs).2 (hsmall hs)
    · exact (extractBits_large_iff value hw hs).2 (hlarge hs)

theorem extract_bits_iff_slots : ExtractsBits 0x1f000040#32 24 8 :=
  (extract_bits_iff 0x1f000040#32 (by decide) 24 8).2
    ⟨fun _ h => absurd h.1 (by decide), fun h => absurd h (by decide)⟩

/-- The highest bit is lost, and a shift by 2^32 is none. -/
theorem extract_bits_loses_top :
    ¬ExtractsBits 0x8000000000000000#64 0 64 ∧ ¬ExtractsBits 1#64 (2 ^ 32) 1 := by
  constructor
  · intro h
    exact absurd h.arithmetic (by decide)
  · intro h
    have hbits := (extractBits_large_iff 1#64 (by decide) (Nat.le_refl _)).1 h.arithmetic
    exact absurd (hbits 0 (by decide) (by decide)) (by decide)

end Wasabi
