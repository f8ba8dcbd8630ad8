import Wasabi.ControlTransfer
import Wasabi.XhcRegisters

namespace Wasabi
set_option autoImplicit true

structure RawDeviceContextBaseAddressArray where
  scratchpadTablePtr : BitVec 64
  context : Vector (BitVec 64) 255

/-- The array as the controller reads it: the entry of slot 0 is the scratchpad table. -/
def RawDeviceContextBaseAddressArray.entries (this : RawDeviceContextBaseAddressArray) :
    List (BitVec 64) :=
  this.scratchpadTablePtr :: this.context.toList

/-- An output context is known by the address of its box. -/
structure DeviceContextBaseAddressArray where
  inner : RawDeviceContextBaseAddressArray
  context : Vector (Option (BitVec 64)) 255

namespace DeviceContextBaseAddressArray

def new (scratchpadTable : BitVec 64) : DeviceContextBaseAddressArray :=
  ⟨⟨scratchpadTable, .replicate 255 0⟩, .replicate 255 none⟩

def setOutputContext (this : DeviceContextBaseAddressArray) (slot : BitVec 8)
    (outputContext : BitVec 64) : Except Fault DeviceContextBaseAddressArray := do
  let ctxIdx ← checkedSub slot.toNat 1
  if h : ctxIdx < 255 then
    let context := this.context.set ctxIdx (some outputContext)
    match context[ctxIdx] with
    | none => throw .unwrap
    | some ptr =>
      return { inner := { this.inner with context := this.inner.context.set ctxIdx ptr }, context }
  else throw .outOfBounds

theorem setOutputContext_ok (this : DeviceContextBaseAddressArray) (ctx : BitVec 64)
    (h : slot ≠ 0) : ∃ this', this.setOutputContext slot ctx = .ok this' ∧
      this'.inner.entries = this.inner.entries.set slot.toNat ctx ∧
      this'.context.toList = this.context.toList.set (slot.toNat - 1) (some ctx) := by
  have hlt := slot.isLt
  have hpos : 1 ≤ slot.toNat := by bv_omega
  have hidx : slot.toNat - 1 < 255 := by omega
  have hslot : slot.toNat = slot.toNat - 1 + 1 := by omega
  refine ⟨⟨{ this.inner with context := this.inner.context.set (slot.toNat - 1) ctx },
    this.context.set (slot.toNat - 1) (some ctx)⟩, ?_, ?_, ?_⟩
  · rw [setOutputContext, checkedSub_ok hpos, ok_bind, dif_pos hidx]
    dsimp only
    rw [Vector.getElem_set_self]
    rfl
  · have hset : this.inner.entries.set slot.toNat ctx =
        this.inner.scratchpadTablePtr :: this.inner.context.toList.set (slot.toNat - 1) ctx := by
      rw [RawDeviceContextBaseAddressArray.entries, hslot, List.set_cons_succ]
      rfl
    rw [hset, RawDeviceContextBaseAddressArray.entries, Vector.toList_set]
  · exact Vector.toList_set (h := hidx)

end DeviceContextBaseAddressArray

open PciXhciDriver OperationalRegisters

variable {bar0 : BitVec 64} {capRegs : CapabilityRegisters} {regs : XhcRegisters} {slot : BitVec 8}

theorem XhcRegisters.notifyEp_eq (hsetup : setupXhcRegisters bar0 capRegs = .ok regs)
    (slot : BitVec 8) (dci : Nat) (writes : List (BitVec 64 × BitVec 32)) :
    regs.notifyEp slot dci writes =
      match Controller.notifyEp (capRegs.numOfPorts + 1) slot dci with
      | .ok () => .ok () (writes ++ [(Doorbell.addr bar0 capRegs slot, BitVec.ofNat 32 dci)])
      | .error e => .error e writes := by
  obtain ⟨regs', hregs', _, hdb⟩ := setupXhcRegisters_ok bar0 capRegs
  rw [hsetup] at hregs'
  cases hregs'
  rw [notifyEp, hdb, List.getElem?_map, Controller.notifyEp]
  by_cases hslot : slot.toNat < capRegs.numOfPorts + 1
  · rw [List.getElem?_range hslot, if_pos hslot]
    dsimp only [Option.map_some]
    by_cases hdci : dci < 256
    · have hvalue : (BitVec.ofNat 8 dci).setWidth 32 ||| (0 : BitVec 16).setWidth 32 <<< 16 =
          BitVec.ofNat 32 dci := by
        have hzero : (0 : BitVec 16).setWidth 32 <<< 16 = 0#32 := by decide
        rw [hzero, BitVec.or_zero]
        bv_omega
      rw [if_pos hdci, if_pos hdci, Doorbell.notify, hvalue]
      rfl
    · rw [if_neg hdci, if_neg hdci]
      rfl
  · rw [List.getElem?_eq_none (by rw [List.length_range]; omega), if_neg hslot]
    rfl

theorem XhcRegisters.notifyXhc_eq (hsetup : setupXhcRegisters bar0 capRegs = .ok regs)
    (writes : List (BitVec 64 × BitVec 32)) :
    regs.notifyXhc writes = .ok () (writes ++ [(Doorbell.addr bar0 capRegs 0, 0)]) := by
  obtain ⟨regs', hregs', _, hdb⟩ := setupXhcRegisters_ok bar0 capRegs
  rw [hsetup] at hregs'
  cases hregs'
  rw [notifyXhc, hdb, List.getElem?_map, List.getElem?_range (by omega)]
  rfl

/-- An enabled slot can be rung at a register of its own, and has an entry of its own. -/
structure SlotUsable (bar0 : BitVec 64) (capRegs : CapabilityRegisters) (regs : XhcRegisters)
    (slot : BitVec 8) : Prop where
  rings : ∀ dci, 1 ≤ dci → dci ≤ 31 → ∀ writes, regs.notifyEp slot dci writes =
    .ok () (writes ++ [(bar0 + capRegs.dboff.setWidth 64 + BitVec.ofNat 64 (4 * slot.toNat),
      BitVec.ofNat 32 dci)])
  distinct : ∀ slot' : BitVec 8, slot' ≠ slot →
    Doorbell.addr bar0 capRegs slot' ≠ Doorbell.addr bar0 capRegs slot
  command : ∃ ptr value, regs.notifyXhc [] = .ok () [(ptr, value)] ∧
    ptr ≠ Doorbell.addr bar0 capRegs slot
  context : ∀ (dcbaa : DeviceContextBaseAddressArray) ctx, ∃ dcbaa',
    dcbaa.setOutputContext slot ctx = .ok dcbaa' ∧
      dcbaa'.inner.entries = dcbaa.inner.entries.set slot.toNat ctx

/-- The slot ids that the controller may hand out once the slots are programmed. -/
structure SlotEnabled (config : BitVec 64) (capRegs : CapabilityRegisters) (slot : BitVec 8) :
    Prop where
  pos : 1 ≤ slot.toNat
  le : slot.toNat ≤ maxSlotsEn (setNumDeviceSlots config capRegs.numOfDeviceSlots)

theorem slotEnabled_iff (config : BitVec 64) : SlotEnabled config capRegs slot ↔
    1 ≤ slot.toNat ∧ slot.toNat ≤ capRegs.hcsparams1.toNat % 256 := by
  have hlt : capRegs.numOfDeviceSlots < 256 := by
    rw [CapabilityRegisters.numOfDeviceSlots_eq]
    omega
  rw [← CapabilityRegisters.numOfDeviceSlots_eq]
  constructor
  · intro h
    have hle := h.le
    rw [maxSlotsEn_setNumDeviceSlots config hlt] at hle
    exact ⟨h.pos, hle⟩
  · rintro ⟨hpos, hle⟩
    rw [← maxSlotsEn_setNumDeviceSlots config hlt] at hle
    exact ⟨hpos, hle⟩

/-- The doorbells are counted by MaxPorts, the slots by MaxSlots. -/
theorem slot_usable_iff {config : BitVec 64} (hsetup : setupXhcRegisters bar0 capRegs = .ok regs)
    (hslot : SlotEnabled config capRegs slot) :
    SlotUsable bar0 capRegs regs slot ↔ slot.toNat ≤ capRegs.numOfPorts := by
  have hpos := hslot.pos
  constructor
  · intro h
    have hring := h.rings 1 (by omega) (by omega) []
    rw [XhcRegisters.notifyEp_eq hsetup, Controller.notifyEp] at hring
    by_cases hlt : slot.toNat < capRegs.numOfPorts + 1
    · omega
    · rw [if_neg hlt] at hring
      cases hring
  · intro hle
    constructor
    case rings =>
      intro dci _ hdci writes
      rw [XhcRegisters.notifyEp_eq hsetup, Controller.notifyEp, if_pos (by omega),
        if_pos (by omega)]
      rfl
    case distinct =>
      intro slot' hne haddr
      exact hne (Doorbell.addr_inj haddr)
    case command =>
      refine ⟨_, _, XhcRegisters.notifyXhc_eq hsetup [], fun haddr => ?_⟩
      have hzero := Doorbell.addr_inj haddr
      subst hzero
      exact absurd hpos (by decide)
    case context =>
      intro dcbaa ctx
      have hne : slot ≠ 0 := by bv_omega
      obtain ⟨dcbaa', hset, hentries, _⟩ := dcbaa.setOutputContext_ok ctx hne
      exact ⟨dcbaa', hset, hentries⟩

/-- 64 slots and 8 ports; `HCSPARAMS1` also holds the number of interrupters. -/
def CapabilityRegisters.typical : CapabilityRegisters := ⟨0x40, 0x08001040, 0, 0x3000, 0x1000⟩

theorem slot_usable_iff_one : ∃ regs, setupXhcRegisters 0xfe000000 .typical = .ok regs ∧
    (SlotUsable 0xfe000000 .typical regs 1 ↔ 1 ≤ CapabilityRegisters.typical.numOfPorts) := by
  obtain ⟨regs, hsetup, _⟩ := setupXhcRegisters_ok 0xfe000000 .typical
  have henabled : SlotEnabled 0 .typical 1 := (slotEnabled_iff 0).2 ⟨by decide, by decide⟩
  exact ⟨regs, hsetup, slot_usable_iff hsetup henabled⟩

theorem slot_nine_unusable : ∃ regs, setupXhcRegisters 0xfe000000 .typical = .ok regs ∧
    SlotEnabled 0 .typical 9 ∧ regs.notifyEp 9 1 [] = .error (.err "Invalid slot") [] ∧
    ¬SlotUsable 0xfe000000 .typical regs 9 := by
  obtain ⟨regs, hsetup, _⟩ := setupXhcRegisters_ok 0xfe000000 .typical
  have hring : regs.notifyEp 9 1 [] = .error (.err "Invalid slot") [] := by
    rw [XhcRegisters.notifyEp_eq hsetup]
    rfl
  refine ⟨regs, hsetup, (slotEnabled_iff 0).2 ⟨by decide, by decide⟩, hring, fun h => ?_⟩
  have hok := h.rings 1 (by omega) (by omega) []
  rw [hring] at hok
  cases hok

end Wasabi
