import Wasabi.Bits
import Mathlib.Data.BitVec
import Mathlib.Data.List.Range

namespace Wasabi
set_option autoImplicit true

structure CapabilityRegisters where
  caplength : BitVec 8
  hcsparams1 : BitVec 32
  hcsparams2 : BitVec 32
  dboff : BitVec 32
  rtsoff : BitVec 32
  deriving DecidableEq, Repr

namespace CapabilityRegisters

def numOfDeviceSlots (this : CapabilityRegisters) : Nat := (extractBits this.hcsparams1 0 8).toNat

def numScratchpadBufs (this : CapabilityRegisters) : Nat :=
  (extractBits this.hcsparams2 21 5 <<< 5 ||| extractBits this.hcsparams2 27 5).toNat

def numOfPorts (this : CapabilityRegisters) : Nat := (extractBits this.hcsparams1 24 8).toNat

theorem numOfDeviceSlots_eq (this : CapabilityRegisters) :
    this.numOfDeviceSlots = this.hcsparams1.toNat % 256 := by
  rw [numOfDeviceSlots, extractBits_toNat _ (by decide) (by decide) (by decide), Nat.pow_zero,
    Nat.div_one]
  rfl

theorem numScratchpadBufs_lt (this : CapabilityRegisters) : this.numScratchpadBufs < 1024 := by
  have hhi : (extractBits this.hcsparams2 21 5).toNat = _ :=
    extractBits_toNat _ (by decide) (by decide) (by decide)
  have hlo : (extractBits this.hcsparams2 27 5).toNat = _ :=
    extractBits_toNat _ (by decide) (by decide) (by decide)
  rw [numScratchpadBufs, BitVec.toNat_or, BitVec.toNat_shiftLeft, hhi, hlo]
  refine Nat.or_lt_two_pow (n := 10) (Nat.lt_of_le_of_lt (Nat.mod_le _ _) ?_) ?_
  · rw [Nat.shiftLeft_eq]
    omega
  · omega

end CapabilityRegisters

namespace OperationalRegisters

/-- What `set_num_device_slots` leaves in the CONFIG register. -/
def setNumDeviceSlots (config : BitVec 64) (num : Nat) : BitVec 64 :=
  config &&& ~~~0xff ||| BitVec.ofNat 64 num

def pageSize (pagesize : BitVec 32) : Except Fault Nat :=
  let pageSizeBits := pagesize &&& 0xffff#32
  if pageSizeBits.cpop ≠ 1 then .error (.err "PAGE_SIZE has multiple bits set")
  else .ok (1 <<< (pageSizeBits.ctz.toNat + 12))

theorem pageSize_ok {pagesize : BitVec 32} (hn : n < 16) (h : pagesize &&& 0xffff#32 = 1#32 <<< n) :
    pageSize pagesize = .ok (2 ^ (n + 12)) := by
  have hbit : ∀ i : Fin 16, (1#32 <<< i.val).cpop = 1 ∧ (1#32 <<< i.val).ctz.toNat = i.val := by
    decide +kernel
  obtain ⟨hone, hshift⟩ := hbit ⟨n, hn⟩
  simp only [pageSize, h, hone, hshift, ne_eq, not_true_eq_false, if_false, Nat.one_shiftLeft]

theorem pageSize_cases (pagesize : BitVec 32) :
    (∃ msg, pageSize pagesize = .error (.err msg)) ∨
      ∃ n < 16, pagesize &&& 0xffff#32 = 1#32 <<< n := by
  by_cases hone : (pagesize &&& 0xffff#32).cpop = 1
  · obtain ⟨n, hn, hbit⟩ := exists_shift_of_cpop hone (by decide)
    refine .inr ⟨n, Nat.lt_of_not_le fun hle => ?_, hbit⟩
    have hset : (pagesize &&& 0xffff#32).getLsbD n = true := by
      rw [hbit, BitVec.getLsbD_shiftLeft, BitVec.getLsbD_one]
      simp [hn]
    have hmask : (0xffff#32).getLsbD n = false := by
      have hall : ∀ k : Fin 16, (0xffff#32).getLsbD (16 + k) = false := by decide
      have h := hall ⟨n - 16, by omega⟩
      rwa [show 16 + (⟨n - 16, by omega⟩ : Fin 16).val = n by dsimp only; omega] at h
    rw [BitVec.getLsbD_and, hmask, Bool.and_false] at hset
    cases hset
  · exact .inl ⟨_, if_pos hone⟩

/-- The number of slots that the controller has been told to use. -/
def maxSlotsEn (config : BitVec 64) : Nat := (config &&& 0xff).toNat

theorem maxSlotsEn_setNumDeviceSlots (config : BitVec 64) (h : num < 256) :
    maxSlotsEn (setNumDeviceSlots config num) = num := by
  have hmask : (config &&& ~~~0xff ||| BitVec.ofNat 64 num) &&& 0xff =
      BitVec.ofNat 64 num &&& 0xff := by
    rw [BitVec.and_or_distrib_right, BitVec.and_assoc, BitVec.and_comm (~~~0xff)]
    have hzero : (0xff : BitVec 64) &&& ~~~0xff = 0 := by decide
    rw [hzero]
    simp
  rw [maxSlotsEn, setNumDeviceSlots, hmask, BitVec.toNat_and, BitVec.toNat_ofNat,
    Nat.mod_eq_of_lt (by omega)]
  exact (Nat.and_two_pow_sub_one_eq_mod num 8).trans (Nat.mod_eq_of_lt h)

end OperationalRegisters

/-- The PORTSC registers, by their addresses. -/
structure PortSc where
  entries : List (BitVec 64)

namespace PortSc

def new (bar : BitVec 64) (capRegs : CapabilityRegisters) : Except Fault PortSc := do
  let base := bar + capRegs.caplength.setWidth 64 + 0x400
  let numPorts := capRegs.numOfPorts
  let entries := (List.range' 1 numPorts).map fun port =>
    base + BitVec.ofNat 64 (4 * ((port - 1) * 4))
  if entries.length ≠ numPorts then
    throw .assertion
  return ⟨entries⟩

def get (this : PortSc) (port : Nat) : Option (BitVec 64) :=
  this.entries[(port + (2 ^ 64 - 1)) % 2 ^ 64]?

end PortSc

structure Doorbell where
  ptr : BitVec 64
  deriving DecidableEq, Repr

/-- A call that writes registers: the addresses and the values, in order. -/
abbrev RegisterM := EStateM Fault (List (BitVec 64 × BitVec 32))

def Doorbell.notify (this : Doorbell) (target : BitVec 8) (task : BitVec 16) : RegisterM Unit :=
  let value := target.setWidth 32 ||| task.setWidth 32 <<< 16
  modify (· ++ [(this.ptr, value)])

def Doorbell.addr (bar0 : BitVec 64) (capRegs : CapabilityRegisters) (slot : BitVec 8) :
    BitVec 64 :=
  bar0 + capRegs.dboff.setWidth 64 + BitVec.ofNat 64 (4 * slot.toNat)

theorem Doorbell.addr_inj (h : addr bar0 capRegs slot = addr bar0 capRegs slot') :
    slot = slot' := by
  have hnat := congrArg BitVec.toNat (add_left_cancel h)
  rw [BitVec.toNat_ofNat, BitVec.toNat_ofNat] at hnat
  bv_omega

structure XhcRegisters where
  capRegs : CapabilityRegisters
  opRegs : BitVec 64
  rtRegs : BitVec 64
  portsc : PortSc
  doorbellRegs : List Doorbell

namespace PciXhciDriver

/-- The capability registers are what is read at the address of the window. -/
def setupXhcRegisters (bar0 : BitVec 64) (capRegs : CapabilityRegisters) :
    Except Fault XhcRegisters := do
  let opRegs := bar0 + capRegs.caplength.setWidth 64
  let rtRegs := bar0 + capRegs.rtsoff.setWidth 64
  let portsc ← PortSc.new bar0 capRegs
  let numSlots := capRegs.numOfPorts
  let doorbellRegs := (List.range (numSlots + 1)).map fun i =>
    Doorbell.mk (bar0 + capRegs.dboff.setWidth 64 + BitVec.ofNat 64 (4 * i))
  if doorbellRegs.length ≠ 1 + numSlots then
    throw .assertion
  return { capRegs, opRegs, rtRegs, portsc, doorbellRegs }

end PciXhciDriver

namespace XhcRegisters

def notifyXhc (regs : XhcRegisters) : RegisterM Unit :=
  match regs.doorbellRegs[0]? with
  | none => throw .outOfBounds
  | some db => db.notify 0 0

def notifyEp (regs : XhcRegisters) (slot : BitVec 8) (dci : Nat) : RegisterM Unit :=
  match regs.doorbellRegs[slot.toNat]? with
  | none => throw (.err "Invalid slot")
  | some db =>
    if dci < 256 then db.notify (BitVec.ofNat 8 dci) 0 else throw (.err "Invalid dci")

end XhcRegisters

theorem PortSc.new_ok (bar : BitVec 64) (capRegs : CapabilityRegisters) :
    ∃ portsc, new bar capRegs = .ok portsc ∧ portsc.entries.length = capRegs.numOfPorts := by
  refine ⟨⟨_⟩, if_neg ?_, ?_⟩
  · rw [List.length_map, List.length_range', not_not]
  · rw [List.length_map, List.length_range']

namespace PciXhciDriver

theorem setupXhcRegisters_ok (bar0 : BitVec 64) (capRegs : CapabilityRegisters) :
    ∃ regs, setupXhcRegisters bar0 capRegs = .ok regs ∧ regs.capRegs = capRegs ∧
      regs.doorbellRegs = (List.range (capRegs.numOfPorts + 1)).map fun i =>
        Doorbell.mk (bar0 + capRegs.dboff.setWidth 64 + BitVec.ofNat 64 (4 * i)) := by
  obtain ⟨portsc, hportsc, _⟩ := PortSc.new_ok bar0 capRegs
  have hlen : ¬((List.range (capRegs.numOfPorts + 1)).map fun i =>
      Doorbell.mk (bar0 + capRegs.dboff.setWidth 64 + BitVec.ofNat 64 (4 * i))).length ≠
        1 + capRegs.numOfPorts := by
    rw [List.length_map, List.length_range, not_not, Nat.add_comm]
  refine ⟨⟨capRegs, bar0 + capRegs.caplength.setWidth 64, bar0 + capRegs.rtsoff.setWidth 64,
    portsc, _⟩, ?_, rfl, rfl⟩
  rw [setupXhcRegisters, hportsc, ok_bind]
  exact if_neg hlen

end PciXhciDriver

end Wasabi
