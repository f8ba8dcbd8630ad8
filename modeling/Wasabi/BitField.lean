import Wasabi.Bits

namespace Wasabi
set_option autoImplicit true

structure BitField (w : Nat) where
  shift : Nat
  width : Nat
  fits : shift + width ≤ w

namespace BitField

variable {w : Nat} (f : BitField w)

def Covers (i : Nat) : Prop := f.shift ≤ i ∧ i < f.shift + f.width

instance (i : Nat) : Decidable (f.Covers i) := inferInstanceAs (Decidable (_ ∧ _))

def get (x : BitVec w) : BitVec f.width := x.extractLsb' f.shift f.width

def mask : BitVec w := BitVec.ofNat w (2 ^ f.width - 1)

def write (v x : BitVec w) : BitVec w := (x &&& ~~~(f.mask <<< f.shift)) ||| v <<< f.shift

def Separate (g : BitField w) : Prop := f.shift + f.width ≤ g.shift ∨ g.shift + g.width ≤ f.shift

instance (g : BitField w) : Decidable (f.Separate g) := inferInstanceAs (Decidable (_ ∨ _))

variable {f} {g : BitField w} {v x : BitVec w} {i : Nat}

/-- A value that is too wide for the field is mixed into the bits above it. -/
theorem getLsbD_write (hi : i < w) : (f.write v x).getLsbD i =
    if f.Covers i then v.getLsbD (i - f.shift)
    else x.getLsbD i || (decide (f.shift ≤ i) && v.getLsbD (i - f.shift)) := by
  have hmask : (f.mask <<< f.shift).getLsbD i = decide (f.Covers i) := by
    rw [BitVec.getLsbD_shiftLeft, mask, BitVec.getLsbD_ofNat, Nat.testBit_two_pow_sub_one]
    unfold Covers
    by_cases hlo : f.shift ≤ i
    · have hlt : i - f.shift < w := by omega
      simp only [hi, hlt, hlo, decide_true, Bool.true_and, true_and]
      rw [decide_eq_false (Nat.not_lt.2 hlo), Bool.not_false, Bool.true_and]
      exact decide_eq_decide.2 (by omega)
    · have hlt : i < f.shift := by omega
      simp [hlo, hlt]
  rw [write, BitVec.getLsbD_or, BitVec.getLsbD_and, BitVec.getLsbD_not, hmask,
    BitVec.getLsbD_shiftLeft]
  by_cases hlo : f.shift ≤ i
  · have hnot : ¬i < f.shift := by omega
    by_cases hc : f.Covers i <;> simp [hi, hc, hlo, hnot]
  · have hc : ¬f.Covers i := fun hc => hlo hc.1
    have hlt : i < f.shift := by omega
    simp [hi, hc, hlo, hlt]

theorem getLsbD_of_lt (hv : v.toNat < 2 ^ f.width) (hi : f.width ≤ i) : v.getLsbD i = false :=
  Nat.testBit_lt_two_pow (lt_of_lt_of_le hv (Nat.pow_le_pow_right (by omega) hi))

theorem getLsbD_write_of_lt (hv : v.toNat < 2 ^ f.width) (hi : i < w) :
    (f.write v x).getLsbD i = if f.Covers i then v.getLsbD (i - f.shift) else x.getLsbD i := by
  rw [getLsbD_write hi]
  by_cases hc : f.Covers i
  · rw [if_pos hc, if_pos hc]
  · rw [if_neg hc, if_neg hc]
    by_cases hlo : f.shift ≤ i
    · have hwide : f.width ≤ i - f.shift := by
        unfold Covers at hc
        omega
      rw [getLsbD_of_lt hv hwide, Bool.and_false, Bool.or_false]
    · rw [decide_eq_false hlo, Bool.false_and, Bool.or_false]

theorem getLsbD_get (hi : i < f.width) : (f.get x).getLsbD i = x.getLsbD (f.shift + i) := by
  rw [get, BitVec.getLsbD_extractLsb', decide_eq_true hi, Bool.true_and]

theorem get_congr {y : BitVec w} (h : ∀ i < w, f.Covers i → x.getLsbD i = y.getLsbD i) :
    f.get x = f.get y := by
  apply BitVec.eq_of_getLsbD_eq
  intro i hi
  have hf := f.fits
  rw [getLsbD_get hi, getLsbD_get hi]
  exact h _ (by omega) ⟨by omega, by omega⟩

theorem get_write : f.get (f.write v x) = v.setWidth f.width := by
  apply BitVec.eq_of_getLsbD_eq
  intro i hi
  have hf := f.fits
  have hc : f.Covers (f.shift + i) := ⟨by omega, by omega⟩
  rw [getLsbD_get hi, getLsbD_write (by omega), if_pos hc, Nat.add_sub_cancel_left,
    BitVec.getLsbD_setWidth, decide_eq_true hi, Bool.true_and]

theorem get_write_separate (hv : v.toNat < 2 ^ f.width) (h : f.Separate g) :
    g.get (f.write v x) = g.get x := by
  apply get_congr
  intro i hi hc
  rw [getLsbD_write_of_lt hv hi, if_neg]
  unfold Covers at *
  unfold Separate at h
  omega

theorem get_write_below (h : g.shift + g.width ≤ f.shift) : g.get (f.write v x) = g.get x := by
  apply get_congr
  intro i hi hc
  have hlt : ¬f.shift ≤ i := by
    unfold Covers at hc
    omega
  rw [getLsbD_write hi, if_neg fun hf => hlt hf.1, decide_eq_false hlt, Bool.false_and,
    Bool.or_false]

theorem writeBits_write (hs : f.shift < w) (hw : f.width < w) (hv : v.toNat < 2 ^ f.width) :
    Volatile.writeBits x f.shift f.width v = .ok (f.write v x) := by
  have hfit : ((1#w <<< f.width) - 1#w) &&& v = v := by
    apply BitVec.eq_of_getLsbD_eq
    intro i hi
    rw [BitVec.getLsbD_and, mask_getLsbD hw hi]
    by_cases hlt : i < f.width
    · rw [decide_eq_true hlt, Bool.true_and]
    · rw [getLsbD_of_lt hv (Nat.not_lt.1 hlt), Bool.and_false]
  rw [Volatile.writeBits_eq hs hw hfit, mask_eq hw, BitVec.or_comm]
  rfl

end BitField

end Wasabi
