import Wasabi.Outcome
import Wasabi.Pci

namespace Wasabi
set_option autoImplicit true

/-- Registers mapped into memory: what they hold, which bits of each byte a store changes, and the
stores so far. -/
structure Registers where
  mem : Mem
  writable : Nat → UInt8
  stores : List (Nat × Nat)

namespace Registers

def store (this : Registers) (a n v : Nat) : Registers where
  mem b :=
    if a ≤ b ∧ b < a + n then
      (this.mem b &&& ~~~this.writable b) |||
        (UInt8.ofNat (v / 256 ^ (b - a)) &&& this.writable b)
    else this.mem b
  writable := this.writable
  stores := this.stores ++ [(a, v)]

end Registers

/-- `*mut u8` as a number. -/
structure BarMem64 where
  addr : Nat
  size : Nat
  deriving DecidableEq, Repr

namespace Pci

def loadRegisterU32 (pci : Pci) (bdf : BusDeviceFunction) (byteOffset : Nat) :
    EStateM Fault Registers Nat := do
  MonadExcept.ofExcept (pci.readRegisterU32 (← get).mem bdf byteOffset)

def storeRegisterU32 (pci : Pci) (bdf : BusDeviceFunction) (byteOffset data : Nat) :
    EStateM Fault Registers Unit := do
  let ecmBase ← MonadExcept.ofExcept (pci.ecmBase bdf)
  let p ← MonadExcept.ofExcept
    (ConfigRegisters.pointer 4 ecmBase byteOffset "PCI ConfigRegisters write out of range")
  modify fun this => this.store p 4 data

def readRegisterU64 (pci : Pci) (bdf : BusDeviceFunction) (byteOffset : Nat) :
    EStateM Fault Registers Nat := do
  let lo ← loadRegisterU32 pci bdf byteOffset
  let hi ← loadRegisterU32 pci bdf (byteOffset + 4)
  return hi <<< 32 ||| lo

def writeRegisterU64 (pci : Pci) (bdf : BusDeviceFunction) (byteOffset data : Nat) :
    EStateM Fault Registers Unit := do
  let lo := data % 2 ^ 32
  let hi := data >>> 32 % 2 ^ 32
  storeRegisterU32 pci bdf byteOffset lo
  storeRegisterU32 pci bdf (byteOffset + 4) hi

def tryBar0Mem64 (pci : Pci) (bdf : BusDeviceFunction) : EStateM Fault Registers BarMem64 := do
  let bar0 ← readRegisterU64 pci bdf 0x10
  if bar0 &&& 0b0111 = 0b0100 then
    let addr := bar0 &&& complement 0b1111
    writeRegisterU64 pci bdf 0x10 (complement 0)
    let probed ← readRegisterU64 pci bdf 0x10
    let size ← MonadExcept.ofExcept (checkedAdd 1 (complement (probed &&& complement 0b1111)))
    writeRegisterU64 pci bdf 0x10 bar0
    return ⟨addr, size⟩
  else throw (.err "Unexpected BAR0 Type")

end Pci

theorem testBit_readLe (m : Mem) (a n : Nat) (hj : j < 8 * n) :
    (readLe m a n).testBit j = (m (a + j / 8)).toNat.testBit (j % 8) := by
  induction n generalizing a j with
  | zero => omega
  | succ n ih =>
    have hb : (m a).toNat < 2 ^ 8 := (m a).toNat_lt
    have hcomm : (m a).toNat + 256 * readLe m (a + 1) n =
        2 ^ 8 * readLe m (a + 1) n + (m a).toNat := by omega
    rw [readLe, hcomm, Nat.testBit_two_pow_mul_add _ hb]
    by_cases hlt : j < 8
    · have hdiv : j / 8 = 0 := by omega
      have hmod : j % 8 = j := by omega
      rw [if_pos hlt, hdiv, hmod, Nat.add_zero]
    · have hdiv : a + 1 + (j - 8) / 8 = a + j / 8 := by omega
      have hmod : (j - 8) % 8 = j % 8 := by omega
      rw [if_neg hlt, ih (a + 1) (by omega), hdiv, hmod]

theorem masked_testBit (x y w : UInt8) (i : Nat) :
    ((x &&& ~~~w) ||| (y &&& w)).toNat.testBit i =
      if w.toNat.testBit i then y.toNat.testBit i else x.toNat.testBit i := by
  simp only [← UInt8.toNat_toBitVec, BitVec.testBit_toNat, UInt8.toBitVec_or, UInt8.toBitVec_and,
    UInt8.toBitVec_not, BitVec.getLsbD_or, BitVec.getLsbD_and, BitVec.getLsbD_not]
  by_cases hi : i < 8
  · cases w.toBitVec.getLsbD i <;> simp [hi]
  · simp [hi, BitVec.getLsbD_of_ge _ _ (Nat.not_lt.1 hi)]

namespace Registers

variable (this : Registers)

theorem store_store (a v : Nat) :
    ((this.store a 4 (v % 2 ^ 32)).store (a + 4) 4 (v >>> 32 % 2 ^ 32)).mem =
      (this.store a 8 v).mem := by
  funext b
  have hlow : ∀ i < 4, UInt8.ofNat (v % 2 ^ 32 / 256 ^ i) = UInt8.ofNat (v / 256 ^ i) := by
    intro i hi
    apply UInt8.toNat_inj.1
    rw [UInt8.toNat_ofNat', UInt8.toNat_ofNat']
    obtain rfl | rfl | rfl | rfl : i = 0 ∨ i = 1 ∨ i = 2 ∨ i = 3 := by omega
    all_goals omega
  have hhigh : ∀ i < 4,
      UInt8.ofNat (v >>> 32 % 2 ^ 32 / 256 ^ i) = UInt8.ofNat (v / 256 ^ (4 + i)) := by
    intro i hi
    apply UInt8.toNat_inj.1
    rw [UInt8.toNat_ofNat', UInt8.toNat_ofNat', Nat.shiftRight_eq_div_pow]
    obtain rfl | rfl | rfl | rfl : i = 0 ∨ i = 1 ∨ i = 2 ∨ i = 3 := by omega
    all_goals omega
  simp only [store]
  by_cases hin : a ≤ b ∧ b < a + 8
  · rw [if_pos hin]
    obtain ⟨i, rfl⟩ : ∃ i, b = a + i := ⟨b - a, by omega⟩
    by_cases hlt : i < 4
    · rw [if_neg (by omega), if_pos (by omega), Nat.add_sub_cancel_left, hlow i hlt]
    · obtain ⟨j, rfl⟩ : ∃ j, i = 4 + j := ⟨i - 4, by omega⟩
      have hj : a + (4 + j) - (a + 4) = j := by omega
      rw [if_pos (by omega), if_neg (by omega), hj, hhigh j (by omega), Nat.add_sub_cancel_left]
  · rw [if_neg hin, if_neg (by omega), if_neg (by omega)]

theorem store_congr {this' : Registers} (hmem : this'.mem = this.mem)
    (hwritable : this'.writable = this.writable) (a n v : Nat) :
    (this'.store a n v).mem = (this.store a n v).mem := by
  simp only [store, hmem, hwritable]

theorem store_back (a n v : Nat) :
    ((this.store a n v).store a n (readLe this.mem a n)).mem = this.mem := by
  funext b
  simp only [store]
  by_cases hin : a ≤ b ∧ b < a + n
  · obtain ⟨i, rfl⟩ : ∃ i, b = a + i := ⟨b - a, by omega⟩
    rw [if_pos hin, if_pos hin, Nat.add_sub_cancel_left, byte_readLe _ _ _ (by omega)]
    apply UInt8.toNat_inj.1
    apply Nat.eq_of_testBit_eq
    intro j
    rw [masked_testBit, masked_testBit]
    cases (this.writable (a + i)).toNat.testBit j <;> rfl
  · rw [if_neg hin, if_neg hin]

theorem testBit_store (a v : Nat) (hj : j < 8 * n) :
    (readLe (this.store a n v).mem a n).testBit j =
      if (this.writable (a + j / 8)).toNat.testBit (j % 8) then v.testBit j
      else (readLe this.mem a n).testBit j := by
  have hin : a ≤ a + j / 8 ∧ a + j / 8 < a + n := by omega
  have hbyte : (UInt8.ofNat (v / 256 ^ (j / 8))).toNat.testBit (j % 8) = v.testBit j := by
    have hpow : 256 ^ (j / 8) = 2 ^ (8 * (j / 8)) := by
      rw [pow_mul]
      norm_num
    rw [UInt8.toNat_ofNat', Nat.testBit_mod_two_pow, hpow, Nat.testBit_div_two_pow,
      Nat.mod_add_div, decide_eq_true (Nat.mod_lt _ (by decide)), Bool.true_and]
  rw [testBit_readLe _ _ _ hj, testBit_readLe _ _ _ hj]
  simp only [store]
  rw [if_pos hin, Nat.add_sub_cancel_left, masked_testBit, hbyte]

end Registers

/-- BAR0 at `a` with a size of `2 ^ k`: bits 63 to `k` can be written, bits `k - 1` to 4 are zero
and bits 3 to 0 hold its type. -/
structure Bar0 (this : Registers) (a k base type : Nat) : Prop where
  writable : ∀ j < 64, (this.writable (a + j / 8)).toNat.testBit (j % 8) = decide (k ≤ j)
  four_le : 4 ≤ k
  le : k ≤ 63
  aligned : base % 2 ^ k = 0
  type_lt : type < 16
  value : readLe this.mem a 8 = base + type

theorem readLe_pair (m : Mem) (a : Nat) :
    readLe m (a + 4) 4 <<< 32 ||| readLe m a 4 = readLe m a 8 := by
  have hlo : readLe m a 4 < 2 ^ 32 := lt_of_lt_of_eq (readLe_lt m a 4) (by norm_num)
  have hpow : 256 ^ 4 = 2 ^ 32 := by norm_num
  rw [← Nat.shiftLeft_add_eq_or_of_lt hlo, Nat.shiftLeft_eq, readLe_add m a 4 4, hpow,
    Nat.mul_comm, Nat.add_comm]

namespace Pci

variable {pci : Pci} {bdf : BusDeviceFunction} {ecm : Nat}

theorem pointer_eq (size ecm off : Nat) (msg : String) :
    ConfigRegisters.pointer size ecm off msg =
      if off < 256 ∧ off % size = 0 then .ok (ecm + off) else .error (.err msg) := by
  rw [ConfigRegisters.pointer]
  by_cases hin : off < 256 ∧ off % size = 0
  · have hmul : off / size * size = off := by
      rw [Nat.mul_comm]
      exact Nat.mul_div_cancel' (Nat.dvd_of_mod_eq_zero hin.2)
    rw [if_pos hin, if_neg (not_or.2 ⟨not_not.2 hin.1, not_not.2 hin.2⟩), hmul]
  · rw [if_neg hin, if_pos (Decidable.not_and_iff_or_not.1 hin)]

theorem loadRegisterU32_eq (hecm : pci.ecmBase bdf = .ok ecm) (off : Nat) (this : Registers) :
    loadRegisterU32 pci bdf off this =
      if off < 256 ∧ off % 4 = 0 then .ok (readLe this.mem (ecm + off) 4) this
      else .error (.err "PCI ConfigRegisters read out of range") this := by
  rw [loadRegisterU32, get_bind, readRegisterU32, hecm, ok_bind, ConfigRegisters.read, pointer_eq]
  split <;> rfl

theorem storeRegisterU32_eq (hecm : pci.ecmBase bdf = .ok ecm) (off v : Nat) (this : Registers) :
    storeRegisterU32 pci bdf off v this =
      if off < 256 ∧ off % 4 = 0 then .ok () (this.store (ecm + off) 4 v)
      else .error (.err "PCI ConfigRegisters write out of range") this := by
  rw [storeRegisterU32, ofExcept_bind hecm, pointer_eq]
  split <;> rfl

theorem readRegisterU64_eq (hecm : pci.ecmBase bdf = .ok ecm) (off : Nat) (hlt : off < 252)
    (hoff : off % 4 = 0) (this : Registers) :
    readRegisterU64 pci bdf off this = .ok (readLe this.mem (ecm + off) 8) this := by
  have hlo := loadRegisterU32_eq hecm off this
  have hhi := loadRegisterU32_eq hecm (off + 4) this
  rw [if_pos (by omega)] at hlo hhi
  rw [readRegisterU64, bind_of_ok hlo, bind_of_ok hhi, ← Nat.add_assoc, readLe_pair]
  rfl

theorem writeRegisterU64_eq (hecm : pci.ecmBase bdf = .ok ecm) (off : Nat) (hlt : off < 252)
    (hoff : off % 4 = 0) (data : Nat) (this : Registers) :
    writeRegisterU64 pci bdf off data this = .ok ()
      ((this.store (ecm + off) 4 (data % 2 ^ 32)).store (ecm + off + 4) 4
        (data >>> 32 % 2 ^ 32)) := by
  have hlo := storeRegisterU32_eq hecm off (data % 2 ^ 32) this
  have hhi := storeRegisterU32_eq hecm (off + 4) (data >>> 32 % 2 ^ 32)
    (this.store (ecm + off) 4 (data % 2 ^ 32))
  rw [if_pos (by omega)] at hlo hhi
  rw [writeRegisterU64, bind_of_ok hlo, hhi, Nat.add_assoc]

end Pci

namespace Bar0

variable {this : Registers} {a k base type : Nat} (h : Bar0 this a k base type)
include h

theorem testBit_value (hj : 4 ≤ j) (hjk : j < k) : (readLe this.mem a 8).testBit j = false := by
  have hle : 2 ^ 4 ≤ 2 ^ k := Nat.pow_le_pow_right (by omega) h.four_le
  have hpow : 2 ^ 4 ≤ 2 ^ j := Nat.pow_le_pow_right (by omega) hj
  have htype := h.type_lt
  have hmod : (base + type) % 2 ^ k = type := by
    rw [Nat.add_mod, h.aligned, Nat.zero_add, Nat.mod_mod, Nat.mod_eq_of_lt (by omega)]
  have hbit := Nat.testBit_mod_two_pow (base + type) k j
  rw [hmod, decide_eq_true hjk, Bool.true_and] at hbit
  rw [h.value, ← hbit]
  exact Nat.testBit_lt_two_pow (by omega)

theorem sixteen_dvd : base % 16 = 0 := by
  have hdvd : 2 ^ 4 ∣ 2 ^ k := Nat.pow_dvd_pow 2 h.four_le
  exact Nat.mod_eq_zero_of_dvd (hdvd.trans (Nat.dvd_of_mod_eq_zero h.aligned))

theorem probed :
    readLe (this.store a 8 (complement 0)).mem a 8 &&& complement 0b1111 = 2 ^ 64 - 2 ^ k := by
  have hlt : readLe (this.store a 8 (complement 0)).mem a 8 < 2 ^ 64 :=
    lt_of_lt_of_eq (readLe_lt _ a 8) (by norm_num)
  have hk : 2 ^ k < 2 ^ 64 := Nat.pow_lt_pow_right (by omega) (Nat.lt_succ_of_le h.le)
  have hpos : 0 < 2 ^ k := Nat.pow_pos (by omega)
  have hsub : 2 ^ 64 - 2 ^ k = 2 ^ 64 - (2 ^ k - 1 + 1) := by omega
  have hfour := h.four_le
  rw [hsub]
  apply Nat.eq_of_testBit_eq
  intro j
  have hround := @land_complement_mask _ (2 ^ 4) hlt ⟨4, by omega, rfl⟩
  have hmask : 2 ^ 4 - 1 = 0b1111 := rfl
  rw [hmask] at hround
  rw [hround, Nat.testBit_two_pow_sub_succ (by omega), Nat.testBit_two_pow_sub_one,
    Nat.testBit_mul_two_pow, Nat.testBit_div_two_pow]
  by_cases hj : j < 64
  · have hones : (complement 0).testBit j = true := by
      rw [complement, Nat.xor_zero, Nat.testBit_two_pow_sub_one, decide_eq_true hj]
    have hstore := this.testBit_store (n := 8) a (complement 0) (j := j) (by omega)
    rw [h.writable j hj, hones] at hstore
    by_cases hfourj : 4 ≤ j
    · rw [Nat.sub_add_cancel hfourj, hstore]
      by_cases hkj : k ≤ j
      · simp [hj, hkj, hfourj]
      · have hjk : j < k := Nat.not_le.1 hkj
        simp [hj, hkj, hjk, h.testBit_value hfourj hjk]
    · have hjk : j < k := by omega
      simp [hfourj, hjk]
  · have hzero : (readLe (this.store a 8 (complement 0)).mem a 8).testBit j = false :=
      Nat.testBit_lt_two_pow (lt_of_lt_of_le hlt (Nat.pow_le_pow_right (by omega) (by omega)))
    rw [Nat.sub_add_cancel (by omega), hzero, decide_eq_false hj, Bool.and_false, Bool.false_and]

theorem size_eq : checkedAdd 1 (complement (2 ^ 64 - 2 ^ k)) = .ok (2 ^ k) := by
  have hk : 2 ^ k < 2 ^ 64 := Nat.pow_lt_pow_right (by omega) (Nat.lt_succ_of_le h.le)
  have hpos : 0 < 2 ^ k := Nat.pow_pos (by omega)
  have hones : 2 ^ 64 - 1 - (2 ^ 64 - 2 ^ k) = 2 ^ k - 1 := by omega
  rw [complement_eq_sub (by omega), hones, checkedAdd_ok (by omega), Nat.add_sub_cancel' hpos]

end Bar0

namespace Pci

/-- Sizing BAR0 returns its base and size and puts the registers back. A BAR of another type is left
alone. -/
theorem try_bar0_mem64 (pci : Pci) (bdf : BusDeviceFunction) (hecm : pci.ecmBase bdf = .ok ecm)
    (this : Registers) (h : Bar0 this (ecm + 0x10) k base type) :
    if type % 8 = 4 then
      ∃ this', tryBar0Mem64 pci bdf this = .ok ⟨base, 2 ^ k⟩ this' ∧ this'.mem = this.mem ∧
        this'.writable = this.writable
    else tryBar0Mem64 pci bdf this = .error (.err "Unexpected BAR0 Type") this := by
  have hvalue := h.value
  have hdvd := h.sixteen_dvd
  have htype := h.type_lt
  have hlt : readLe this.mem (ecm + 0x10) 8 < 2 ^ 64 :=
    lt_of_lt_of_eq (readLe_lt _ _ 8) (by norm_num)
  have hbits : readLe this.mem (ecm + 0x10) 8 &&& 0b0111 = type % 8 := by
    have hand := Nat.and_two_pow_sub_one_eq_mod (readLe this.mem (ecm + 0x10) 8) 3
    rw [(rfl : 0b0111 = 2 ^ 3 - 1), hand]
    omega
  have haddr : readLe this.mem (ecm + 0x10) 8 &&& complement 0b1111 = base := by
    rw [@land_complement_mask _ 16 hlt ⟨4, by omega, rfl⟩]
    omega
  have hread := readRegisterU64_eq hecm 0x10 (by decide) rfl
  have hwrite := writeRegisterU64_eq hecm 0x10 (by decide) rfl
  rw [tryBar0Mem64, bind_of_ok (hread this), hbits]
  split
  · rw [bind_of_ok (hwrite _ _), bind_of_ok (hread _),
      this.store_store, h.probed, ofExcept_bind h.size_eq,
      bind_of_ok (hwrite _ _), haddr]
    refine ⟨_, rfl, ?_, rfl⟩
    rw [Registers.store_store]
    have hmem := this.store_store (ecm + 0x10) (complement 0)
    rw [(this.store (ecm + 0x10) 8 (complement 0)).store_congr hmem rfl, this.store_back]
  · rfl

def xhciRegisters : Registers where
  mem := writeLe (fun _ => 0) 0xb0000010 8 0xc0000004
  writable b := if b = 0xb0000011 then 0xc0 else if 0xb0000012 ≤ b ∧ b < 0xb0000018 then 0xff else 0
  stores := []

theorem xhciRegisters_bar0 : Bar0 xhciRegisters 0xb0000010 14 0xc0000000 4 := by
  refine ⟨?_, by decide, by decide, by decide, by decide, by decide +kernel⟩
  decide +kernel

theorem try_bar0_mem64_xhci :
    if 4 % 8 = 4 then
      ∃ this', tryBar0Mem64 ⟨0xb0000000, 0xb1000000⟩ ⟨0⟩ xhciRegisters =
          .ok ⟨0xc0000000, 2 ^ 14⟩ this' ∧ this'.mem = xhciRegisters.mem ∧
        this'.writable = xhciRegisters.writable
    else tryBar0Mem64 ⟨0xb0000000, 0xb1000000⟩ ⟨0⟩ xhciRegisters =
      .error (.err "Unexpected BAR0 Type") xhciRegisters :=
  try_bar0_mem64 ⟨0xb0000000, 0xb1000000⟩ ⟨0⟩ (rfl : _ = Except.ok 0xb0000000) xhciRegisters
    xhciRegisters_bar0

end Pci

end Wasabi
