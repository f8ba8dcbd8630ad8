import Wasabi.Bits
import Mathlib.Logic.Function.Basic

namespace Wasabi
set_option autoImplicit true

inductive TrbType where
  | normal
  | setupStage
  | dataStage
  | statusStage
  | link
  | enableSlotCommand
  | addressDeviceCommand
  | configureEndpointCommand
  | evaluateContextCommand
  | noOpCommand
  | transferEvent
  | commandCompletionEvent
  | portStatusChangeEvent
  | hostControllerEvent
  deriving DecidableEq, Repr

def TrbType.value : TrbType → BitVec 32
  | normal => 1
  | setupStage => 2
  | dataStage => 3
  | statusStage => 4
  | link => 6
  | enableSlotCommand => 9
  | addressDeviceCommand => 11
  | configureEndpointCommand => 12
  | evaluateContextCommand => 13
  | noOpCommand => 23
  | transferEvent => 32
  | commandCompletionEvent => 33
  | portStatusChangeEvent => 34
  | hostControllerEvent => 37

structure GenericTrbEntry where
  data : BitVec 64
  option : BitVec 32
  control : BitVec 32
  deriving DecidableEq, Repr

namespace GenericTrbEntry

def default : GenericTrbEntry := ⟨0, 0, 0⟩

def setTrbType (trb : GenericTrbEntry) (trbType : TrbType) : Except Fault GenericTrbEntry := do
  return { trb with control := ← unwrap (Volatile.writeBits trb.control 10 6 trbType.value) }

def ofBool (b : Bool) : BitVec 32 := if b then 1 else 0

def setCycleState (trb : GenericTrbEntry) (cycle : Bool) : Except Fault GenericTrbEntry := do
  return { trb with control := ← unwrap (Volatile.writeBits trb.control 0 1 (ofBool cycle)) }

def setToggleCycle (trb : GenericTrbEntry) (value : Bool) : Except Fault GenericTrbEntry := do
  return { trb with control := ← unwrap (Volatile.writeBits trb.control 1 1 (ofBool value)) }

def slotId (trb : GenericTrbEntry) : Except Fault (BitVec 8) := do
  let slot ← Volatile.readBits trb.control 24 8
  if slot.toNat < 256 then return slot.setWidth 8 else throw .unwrap

def trbType (trb : GenericTrbEntry) : Except Fault (BitVec 32) :=
  Volatile.readBits trb.control 10 6

def cycleState (trb : GenericTrbEntry) : Except Fault Bool := do
  return (← Volatile.readBits trb.control 0 1) != 0

def trbLink (physAddr : Nat) : Except Fault GenericTrbEntry := do
  let trb ← default.setTrbType .link
  let trb := { trb with data := BitVec.ofNat 64 physAddr }
  trb.setToggleCycle true

def cycle (trb : GenericTrbEntry) : Bool := trb.control.getLsbD 0

def kind (trb : GenericTrbEntry) : BitVec 32 := trb.control >>> 10 &&& 0x3f

def withCycle (trb : GenericTrbEntry) (cycle : Bool) : GenericTrbEntry :=
  { trb with control := ofBool cycle ||| (trb.control &&& ~~~1) }

theorem setCycleState_eq (trb : GenericTrbEntry) (cycle : Bool) :
    trb.setCycleState cycle = .ok (trb.withCycle cycle) := by
  have hmask : (1#32 <<< 1) - 1#32 = 1#32 := by decide
  have hv : ((1#32 <<< 1) - 1#32) &&& ofBool cycle = ofBool cycle := by
    cases cycle <;> decide
  rw [setCycleState, Volatile.writeBits_eq (by omega) (by omega) hv, unwrap_ok, ok_bind, hmask,
    BitVec.shiftLeft_zero, BitVec.shiftLeft_zero]
  rfl

theorem cycleState_eq (trb : GenericTrbEntry) : trb.cycleState = .ok trb.cycle := by
  have hmask : (1#32 <<< 1) - 1#32 = 1#32 := by decide
  have hbit : (trb.control &&& 1#32 != 0) = trb.control.getLsbD 0 := by
    rw [BitVec.and_one_eq_setWidth_ofBool_getLsbD]
    cases trb.control.getLsbD 0 <;> decide
  rw [cycleState, Volatile.readBits_eq (by omega) (by omega), ok_bind, hmask,
    BitVec.ushiftRight_zero, hbit]
  rfl

theorem trbType_eq (trb : GenericTrbEntry) : trb.trbType = .ok trb.kind := by
  have hmask : (1#32 <<< 6) - 1#32 = 0x3f#32 := by decide
  rw [trbType, Volatile.readBits_eq (by omega) (by omega), hmask]
  rfl

theorem slotId_eq (trb : GenericTrbEntry) : trb.slotId = .ok (trb.control.extractLsb' 24 8) := by
  have hslot : trb.control >>> 24 &&& ((1#32 <<< 8) - 1#32) =
      (trb.control.extractLsb' 24 8).setWidth 32 := by
    apply BitVec.eq_of_getLsbD_eq
    intro i hi
    rw [BitVec.getLsbD_and, BitVec.getLsbD_ushiftRight, mask_getLsbD (by omega) hi,
      BitVec.getLsbD_setWidth, BitVec.getLsbD_extractLsb', decide_eq_true hi, Bool.true_and,
      Bool.and_comm]
  have hlt := (trb.control.extractLsb' 24 8).isLt
  rw [slotId, Volatile.readBits_eq (by omega) (by omega), ok_bind, hslot, BitVec.toNat_setWidth,
    Nat.mod_eq_of_lt (by omega), if_pos hlt, BitVec.setWidth_setWidth_of_le _ (by omega),
    BitVec.setWidth_eq]
  rfl

theorem withCycle_getLsbD (trb : GenericTrbEntry) (b : Bool) (i : Nat) :
    (trb.withCycle b).control.getLsbD i = if i = 0 then b else trb.control.getLsbD i := by
  by_cases hi : i = 0
  · subst hi
    cases b <;> simp [withCycle, ofBool]
  · have hone : (1#32).getLsbD i = false := by simp [BitVec.getLsbD_one, hi]
    have hb : (ofBool b).getLsbD i = false := by
      cases b
      · simp [ofBool]
      · exact hone
    have hlt : trb.control.getLsbD i = true → i < 32 := BitVec.lt_of_getLsbD
    simp only [withCycle, BitVec.getLsbD_or, BitVec.getLsbD_and, BitVec.getLsbD_not, hb, hi]
    cases hc : trb.control.getLsbD i with
    | false => simp
    | true => simp [hi, hlt hc]

theorem withCycle_cycle (trb : GenericTrbEntry) (b : Bool) : (trb.withCycle b).cycle = b := by
  rw [cycle, withCycle_getLsbD, if_pos rfl]

theorem withCycle_kind (trb : GenericTrbEntry) (b : Bool) : (trb.withCycle b).kind = trb.kind := by
  apply BitVec.eq_of_getLsbD_eq
  intro i _
  simp only [kind, BitVec.getLsbD_and, BitVec.getLsbD_ushiftRight, withCycle_getLsbD]
  rw [if_neg (by omega)]

theorem withCycle_withCycle (trb : GenericTrbEntry) (b c : Bool) :
    (trb.withCycle b).withCycle c = trb.withCycle c := by
  have hcontrol : ((trb.withCycle b).withCycle c).control = (trb.withCycle c).control := by
    apply BitVec.eq_of_getLsbD_eq
    intro i _
    rw [withCycle_getLsbD, withCycle_getLsbD, withCycle_getLsbD]
    split <;> rfl
  simp only [withCycle] at hcontrol ⊢
  rw [hcontrol]

theorem trbLink_eq (physAddr : Nat) :
    trbLink physAddr = .ok ⟨BitVec.ofNat 64 physAddr, 0, 0x1802⟩ := by
  have htype : Volatile.writeBits 0#32 10 6 TrbType.link.value = .ok 0x1800 := rfl
  have htoggle : Volatile.writeBits 0x1800#32 1 1 (ofBool true) = .ok 0x1802 := rfl
  simp only [trbLink, setTrbType, setToggleCycle, default, BitVec.ofNat_eq_ofNat, htype, unwrap_ok,
    ok_bind, pure, Except.pure, htoggle]

/-- What a consumer of a ring sees of an entry, besides the cycle bit. -/
def contents (trb : GenericTrbEntry) : GenericTrbEntry := trb.withCycle false

theorem contents_withCycle (trb : GenericTrbEntry) (b : Bool) :
    (trb.withCycle b).contents = trb.contents :=
  withCycle_withCycle trb b false

end GenericTrbEntry

-- Numerals and `+` on the indices of a ring are those of this instance in every module.
instance TrbRing.neZero : NeZero 16 := ⟨by decide⟩

theorem TrbRing.val_succ (i : Fin 16) : (i + 1).val = (i.val + 1) % 16 := by
  rw [Fin.val_add]
  rfl

/-- A ring of entries at the address `base`, with the index that the software is at. -/
structure TrbRing where
  base : Nat
  aligned : base % 4096 = 0
  trb : Fin 16 → GenericTrbEntry
  currentIndex : Fin 16

namespace TrbRing

def numTrb : Nat := 16

def new (base : Nat) (h : base % 4096 = 0) : TrbRing := ⟨base, h, fun _ => .default, 0⟩

def physAddr (ring : TrbRing) : Nat := ring.base

def write (ring : TrbRing) (index : Nat) (trb : GenericTrbEntry) : Except Fault TrbRing :=
  if h : index < numTrb then .ok { ring with trb := Function.update ring.trb ⟨index, h⟩ trb }
  else .error (.err "TrbRing Out of Range")

def current (ring : TrbRing) : GenericTrbEntry := ring.trb ring.currentIndex

def addrOf (ring : TrbRing) (index : Fin 16) : Nat := ring.base + 16 * index

def currentPtr (ring : TrbRing) : Nat := ring.addrOf ring.currentIndex

def advanceIndexNotoggle (ring : TrbRing) (cycleOurs : Bool) : Except Fault TrbRing := do
  if (← ring.current.cycleState) ≠ cycleOurs then
    throw (.err "cycle state mismatch")
  return { ring with currentIndex := ring.currentIndex + 1 }

def advanceIndex (ring : TrbRing) (newCycle : Bool) : Except Fault TrbRing := do
  if (← ring.current.cycleState) = newCycle then
    throw (.err "cycle state does not change")
  let entry ← ring.current.setCycleState newCycle
  return { ring with
    trb := Function.update ring.trb ring.currentIndex entry
    currentIndex := ring.currentIndex + 1 }

def writeCurrent (ring : TrbRing) (trb : GenericTrbEntry) : Except Fault TrbRing :=
  unwrap (ring.write ring.currentIndex trb)

theorem writeCurrent_eq (ring : TrbRing) (trb : GenericTrbEntry) :
    ring.writeCurrent trb =
      .ok { ring with trb := Function.update ring.trb ring.currentIndex trb } :=
  congrArg unwrap (dif_pos ring.currentIndex.isLt)

theorem advanceIndex_eq (ring : TrbRing) (h : ring.current.cycle ≠ newCycle) :
    ring.advanceIndex newCycle = .ok { ring with
      trb := Function.update ring.trb ring.currentIndex (ring.current.withCycle newCycle)
      currentIndex := ring.currentIndex + 1 } := by
  rw [advanceIndex, GenericTrbEntry.cycleState_eq, ok_bind, if_neg h,
    GenericTrbEntry.setCycleState_eq, ok_bind]
  rfl

theorem advanceIndexNotoggle_eq (ring : TrbRing) (h : ring.current.cycle = cycleOurs) :
    ring.advanceIndexNotoggle cycleOurs =
      .ok { ring with currentIndex := ring.currentIndex + 1 } := by
  rw [advanceIndexNotoggle, GenericTrbEntry.cycleState_eq, ok_bind, if_neg (not_not.2 h)]
  rfl

end TrbRing

end Wasabi
