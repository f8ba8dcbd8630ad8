import Wasabi.Bar

namespace Wasabi
set_option autoImplicit true

theorem Registers.store_plain (this : Registers)
    (h : ∀ b, a ≤ b → b < a + n → this.writable b = 0xff) (v : Nat) :
    (this.store a n v).mem = writeLe this.mem a n v := by
  have hnone : ~~~(0xff : UInt8) = 0 := rfl
  have hall : (0xff : UInt8) = -1 := rfl
  funext b
  simp only [store, writeLe]
  split
  · next hin =>
    rw [h b hin.1 hin.2, hnone, hall, UInt8.and_zero, UInt8.and_neg_one, UInt8.zero_or]
  · rfl

theorem writeLe_eq_self (m : Mem) (a n : Nat) : writeLe m a n (readLe m a n) = m := by
  funext b
  rw [writeLe]
  split
  · next hin =>
    rw [byte_readLe m a n (by omega)]
    exact congrArg m (by omega)
  · rfl

namespace Pci

def register (pci : Pci) (bdf : BusDeviceFunction) (byteOffset : Nat) : Nat :=
  pci.ecmRange.1 + bdf.id.toNat * 4096 + byteOffset

/-- The first 256 bytes of each function are plain storage. -/
def Plain (pci : Pci) (this : Registers) : Prop :=
  ∀ bdf, ∀ byteOffset < 256, this.writable (pci.register bdf byteOffset) = 0xff

/-- A write either takes place, so that it can be read back and nothing else has changed, or fails
without effect. A read succeeds wherever a write does. -/
structure AllOrNothing (pci : Pci) (bdf : BusDeviceFunction) (byteOffset data : Nat)
    (this : Registers) : Prop where
  write : (∃ this', writeRegisterU64 pci bdf byteOffset data this = .ok () this' ∧
      readRegisterU64 pci bdf byteOffset this' = .ok data this' ∧
      ∀ a, a < pci.register bdf byteOffset ∨ pci.register bdf byteOffset + 8 ≤ a →
        this'.mem a = this.mem a) ∨
    ∃ msg this', writeRegisterU64 pci bdf byteOffset data this = .error (.err msg) this' ∧
      this'.mem = this.mem
  read : (∃ v, readRegisterU64 pci bdf byteOffset this = .ok v this) ↔
    ∃ this', writeRegisterU64 pci bdf byteOffset data this = .ok () this'

variable {pci : Pci} {bdf : BusDeviceFunction} {byteOffset data : Nat} {this : Registers}

theorem ecmBase_eq (hbase : pci.ecmRange.1 + 2 ^ 28 < 2 ^ 64) (bdf : BusDeviceFunction) :
    pci.ecmBase bdf = .ok (pci.register bdf 0) := by
  have hid := bdf.id.isLt
  have hshift : bdf.id.toNat <<< 12 = bdf.id.toNat * 4096 := Nat.shiftLeft_eq _ _
  rw [ecmBase, hshift, checkedAdd_ok (by omega)]
  rfl

theorem Plain.writable (h : pci.Plain this) (hlt : byteOffset + n ≤ 256)
    (b : Nat) (hlo : pci.register bdf byteOffset ≤ b) (hhi : b < pci.register bdf byteOffset + n) :
    this.writable b = 0xff := by
  unfold register at hlo hhi
  obtain ⟨i, hi, rfl⟩ : ∃ i < 256, b = pci.register bdf i := by
    refine ⟨b - pci.register bdf 0, ?_, ?_⟩
    all_goals
      unfold register
      omega
  exact h bdf i hi

theorem AllOrNothing.inside (hbase : pci.ecmRange.1 + 2 ^ 28 < 2 ^ 64) (hplain : pci.Plain this)
    (hdata : data < 2 ^ 64) (hlt : byteOffset < 252) (hoff : byteOffset % 4 = 0) :
    pci.AllOrNothing bdf byteOffset data this := by
  have hreg : pci.register bdf 0 + byteOffset = pci.register bdf byteOffset := rfl
  have hwrite := writeRegisterU64_eq (ecmBase_eq hbase bdf) byteOffset hlt hoff data this
  have hread := readRegisterU64_eq (ecmBase_eq hbase bdf) byteOffset hlt hoff
  rw [hreg] at hwrite
  have hmem : (this.store (pci.register bdf byteOffset) 8 data).mem =
      writeLe this.mem (pci.register bdf byteOffset) 8 data :=
    this.store_plain (hplain.writable (by omega)) data
  rw [← Registers.store_store] at hmem
  have hpow : data < 256 ^ 8 := lt_of_lt_of_eq hdata (by norm_num)
  refine ⟨.inl ⟨_, hwrite, ?_, fun a ha => ?_⟩, iff_of_true ⟨_, hread this⟩ ⟨_, hwrite⟩⟩
  · rw [hread, hreg, hmem, readLe_writeLe_of_lt hpow]
  · rw [hmem, writeLe, if_neg (by omega)]

theorem AllOrNothing.refused (hbase : pci.ecmRange.1 + 2 ^ 28 < 2 ^ 64)
    (h : ¬(byteOffset < 256 ∧ byteOffset % 4 = 0)) :
    pci.AllOrNothing bdf byteOffset data this := by
  have hlo := storeRegisterU32_eq (ecmBase_eq hbase bdf) byteOffset (data % 2 ^ 32) this
  have hread := loadRegisterU32_eq (ecmBase_eq hbase bdf) byteOffset this
  rw [if_neg h] at hlo hread
  have hwrite := bind_of_error (f := fun _ =>
    storeRegisterU32 pci bdf (byteOffset + 4) (data >>> 32 % 2 ^ 32)) hlo
  refine ⟨.inr ⟨_, this, hwrite, rfl⟩, iff_of_false ?_ ?_⟩
  · rintro ⟨v, hv⟩
    rw [readRegisterU64, bind_of_error hread] at hv
    cases hv
  · rintro ⟨this', hok⟩
    cases hwrite.symm.trans hok

theorem writeRegisterU64_last (hbase : pci.ecmRange.1 + 2 ^ 28 < 2 ^ 64)
    (bdf : BusDeviceFunction) (data : Nat) (this : Registers) :
    writeRegisterU64 pci bdf 252 data this =
      .error (.err "PCI ConfigRegisters write out of range")
        (this.store (pci.register bdf 252) 4 (data % 2 ^ 32)) := by
  have hlo := storeRegisterU32_eq (ecmBase_eq hbase bdf) 252 (data % 2 ^ 32) this
  rw [if_pos (by decide)] at hlo
  have hhi := storeRegisterU32_eq (ecmBase_eq hbase bdf) 256 (data >>> 32 % 2 ^ 32)
    (this.store (pci.register bdf 252) 4 (data % 2 ^ 32))
  rw [if_neg (by decide)] at hhi
  rw [writeRegisterU64, bind_of_ok hlo]
  exact hhi

theorem readRegisterU64_last (hbase : pci.ecmRange.1 + 2 ^ 28 < 2 ^ 64)
    (bdf : BusDeviceFunction) (this : Registers) :
    readRegisterU64 pci bdf 252 this =
      .error (.err "PCI ConfigRegisters read out of range") this := by
  have hlo := loadRegisterU32_eq (ecmBase_eq hbase bdf) 252 this
  rw [if_pos (by decide)] at hlo
  have hhi := loadRegisterU32_eq (ecmBase_eq hbase bdf) 256 this
  rw [if_neg (by decide)] at hhi
  rw [readRegisterU64, bind_of_ok hlo, bind_of_error hhi]

/-- A 64-bit access is all or nothing except at the last register, where a write that fails leaves
its lower half behind. -/
theorem write_u64_all_or_nothing_iff (hbase : pci.ecmRange.1 + 2 ^ 28 < 2 ^ 64)
    (hplain : pci.Plain this) (hdata : data < 2 ^ 64) :
    pci.AllOrNothing bdf byteOffset data this ↔
      (byteOffset = 252 → readLe this.mem (pci.register bdf 252) 4 = data % 2 ^ 32) := by
  by_cases hlast : byteOffset = 252
  · subst hlast
    have hwrite := writeRegisterU64_last hbase bdf data this
    have hread := readRegisterU64_last hbase bdf this
    have hmem : (this.store (pci.register bdf 252) 4 (data % 2 ^ 32)).mem =
        writeLe this.mem (pci.register bdf 252) 4 (data % 2 ^ 32) :=
      this.store_plain (hplain.writable (by decide)) _
    constructor
    · intro h _
      rcases h.write with ⟨this', hok, _⟩ | ⟨msg, this', herr, hsame⟩
      · cases hwrite.symm.trans hok
      · cases hwrite.symm.trans herr
        have hlt : data % 2 ^ 32 < 256 ^ 4 :=
          lt_of_lt_of_eq (Nat.mod_lt _ (by decide)) (by norm_num)
        rw [← readLe_writeLe_of_lt hlt, ← hmem, hsame]
    · intro h
      have hlow := h rfl
      refine ⟨.inr ⟨_, _, hwrite, ?_⟩, iff_of_false ?_ ?_⟩
      · rw [hmem, ← hlow, writeLe_eq_self]
      · rintro ⟨v, hv⟩
        cases hread.symm.trans hv
      · rintro ⟨this', hok⟩
        cases hwrite.symm.trans hok
  · refine iff_of_true ?_ fun he => absurd he hlast
    by_cases hin : byteOffset < 256 ∧ byteOffset % 4 = 0
    · exact .inside hbase hplain hdata (by omega) hin.2
    · exact .refused hbase hin

def plainRegisters : Registers := ⟨fun _ => 0, fun _ => 0xff, []⟩

theorem write_u64_all_or_nothing_bar0 :
    (Pci.mk (0xb0000000, 0xb1000000)).AllOrNothing ⟨0⟩ 0x10 0xffffffffffffffff plainRegisters ↔
      (0x10 = 252 → readLe plainRegisters.mem (register ⟨0xb0000000, 0xb1000000⟩ ⟨0⟩ 252) 4 =
        0xffffffffffffffff % 2 ^ 32) :=
  write_u64_all_or_nothing_iff (by decide) (fun _ _ _ => rfl) (by decide)

/-- The failed write of a one to the last register can be read back. -/
theorem write_u64_leaves_half :
    (Pci.mk (0xb0000000, 0xb1000000)).Plain plainRegisters ∧
      ¬(Pci.mk (0xb0000000, 0xb1000000)).AllOrNothing ⟨0⟩ 252 1 plainRegisters := by
  refine ⟨fun _ _ _ => rfl, fun h => ?_⟩
  have hwrite := @writeRegisterU64_last ⟨0xb0000000, 0xb1000000⟩ (by decide) ⟨0⟩ 1 plainRegisters
  rcases h.write with ⟨this', hok, _⟩ | ⟨msg, this', herr, hsame⟩
  · cases hwrite.symm.trans hok
  · cases hwrite.symm.trans herr
    have hmem := plainRegisters.store_plain (a := 0xb00000fc) (n := 4) (fun _ _ _ => rfl) 1
    have hlow : readLe (writeLe plainRegisters.mem 0xb00000fc 4 1) 0xb00000fc 4 = 0 := by
      rw [← hmem]
      exact congrArg (readLe · 0xb00000fc 4) hsame
    rw [readLe_writeLe_of_lt (by decide)] at hlow
    cases hlow

end Pci

end Wasabi
