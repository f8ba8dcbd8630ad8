import Wasabi.Outcome
import Wasabi.Usize

namespace Wasabi
set_option autoImplicit true

/-- The source names one status, so that its derived comparison has nothing to compare. -/
inductive EfiStatus where
  | success
  deriving DecidableEq, Repr

abbrev FirmwareStatus := BitVec 64

namespace FirmwareStatus

def success : FirmwareStatus := 0
def invalidParameter : FirmwareStatus := 0x8000000000000002
def bufferTooSmall : FirmwareStatus := 0x8000000000000005

end FirmwareStatus

/-- Whatever the firmware returns, the code takes it for the one value of the type. -/
def EfiStatus.ofFirmware (_ : FirmwareStatus) : EfiStatus := .success

def memoryMapBufferSize : Nat := 0x8000

/-- `memoryMapSize` is the room that the caller offers, then the size of the map. -/
structure MemoryMapHolder where
  memoryMapBuffer : Vector UInt8 memoryMapBufferSize
  memoryMapSize : Nat
  mapKey : Nat
  descriptorSize : Nat
  descriptorVersion : BitVec 32

def MemoryMapHolder.new : MemoryMapHolder where
  memoryMapBuffer := .replicate memoryMapBufferSize 0
  memoryMapSize := memoryMapBufferSize
  mapKey := 0
  descriptorSize := 0
  descriptorVersion := 0

structure FirmwareMap where
  bytes : List UInt8
  key : Nat
  descriptorSize : Nat
  descriptorVersion : BitVec 32

def FirmwareMap.size (map : FirmwareMap) : Nat := map.bytes.length

/-- The firmware after `k` calls of `ExitBootServices`: the map that `GetMemoryMap` finds, then the
key by the next `ExitBootServices` and its answer. -/
structure Firmware where
  map : Nat → FirmwareMap
  keyAtExit : Nat → Nat
  exitBootServices : Nat → BitVec 64 → Nat → FirmwareStatus
  stale : ∀ k imageHandle key, key ≠ keyAtExit k →
    exitBootServices k imageHandle key ≠ .success

namespace MemoryMapHolder

structure Holds (this : MemoryMapHolder) (map : FirmwareMap) : Prop where
  size : this.memoryMapSize = map.size
  bytes : ∀ (i : Nat) (hi : i < memoryMapBufferSize) (hm : i < map.bytes.length),
    this.memoryMapBuffer[i] = map.bytes[i]
  key : this.mapKey = map.key
  descriptorSize : this.descriptorSize = map.descriptorSize
  descriptorVersion : this.descriptorVersion = map.descriptorVersion

def store (this : MemoryMapHolder) (map : FirmwareMap) : MemoryMapHolder where
  memoryMapBuffer := .ofFn fun i =>
    if h : i < map.bytes.length then map.bytes[i] else this.memoryMapBuffer[i]
  memoryMapSize := map.size
  mapKey := map.key
  descriptorSize := map.descriptorSize
  descriptorVersion := map.descriptorVersion

theorem store_holds (this : MemoryMapHolder) (map : FirmwareMap) : (this.store map).Holds map := by
  refine ⟨rfl, fun i hi hm => ?_, rfl, rfl, rfl⟩
  exact (Vector.getElem_ofFn hi).trans (dif_pos hm)

end MemoryMapHolder

/-- On too small a buffer the firmware says how much room it needs. -/
def FirmwareMap.getMemoryMap (now : FirmwareMap) (map : MemoryMapHolder) :
    FirmwareStatus × MemoryMapHolder :=
  if now.size ≤ map.memoryMapSize then (.success, map.store now)
  else (.bufferTooSmall, { map with memoryMapSize := now.size })

theorem FirmwareMap.getMemoryMap_of_le {now : FirmwareMap} {map : MemoryMapHolder}
    (h : now.size ≤ map.memoryMapSize) : now.getMemoryMap map = (.success, map.store now) :=
  if_pos h

/-- The holder, and the keys that `ExitBootServices` has been called with, with its answers. -/
structure BootServices where
  memoryMap : MemoryMapHolder
  exits : List (Nat × FirmwareStatus)

abbrev BootM := EStateM Fault BootServices

section
variable (firmware : Firmware)

namespace EfiBootServicesTable

def getMemoryMap : BootM EfiStatus := do
  let this ← get
  let answer := (firmware.map this.exits.length).getMemoryMap this.memoryMap
  set { this with memoryMap := answer.2 }
  return .ofFirmware answer.1

def exitBootServices (imageHandle : BitVec 64) (mapKey : Nat) : BootM EfiStatus := do
  let this ← get
  let status := firmware.exitBootServices this.exits.length imageHandle mapKey
  set { this with exits := this.exits ++ [(mapKey, status)] }
  return .ofFirmware status

end EfiBootServicesTable

open EfiBootServicesTable in
def exitRound (imageHandle : BitVec 64) : BootM (Unit ⊕ Unit) := do
  let status ← getMemoryMap firmware
  if status ≠ .success then
    throw .assertion
  let status ← exitBootServices firmware imageHandle (← get).memoryMap.mapKey
  if status = .success then return .inr () else return .inl ()

def exitFromEfiBootServices (fuel : Nat) (imageHandle : BitVec 64) : BootM Unit :=
  loopFrom .diverged (fun () => exitRound firmware imageHandle) fuel ()

end

namespace Firmware

def Accepts (firmware : Firmware) (imageHandle : BitVec 64) (k : Nat) : Prop :=
  firmware.exitBootServices k imageHandle (firmware.map k).key = .success

/-- The call returns, and the holder has the map whose key the last `ExitBootServices` accepted. -/
def LeavesWithMap (firmware : Firmware) (r : EStateM.Result Fault BootServices Unit) : Prop :=
  ∃ s k, r = .ok () s ∧ s.exits.length = k + 1 ∧ s.memoryMap.Holds (firmware.map k) ∧
    s.exits[k]? = some ((firmware.map k).key, .success)

variable {firmware : Firmware} {imageHandle : BitVec 64}

/-- No answer of the firmware is told from success. -/
theorem exitRound_eq (this : BootServices)
    (hmap : ((firmware.map this.exits.length).getMemoryMap this.memoryMap).2 = memoryMap) :
    exitRound firmware imageHandle this = .ok (.inr ()) ⟨memoryMap, this.exits ++
      [(memoryMap.mapKey,
        firmware.exitBootServices this.exits.length imageHandle memoryMap.mapKey)]⟩ := by
  subst hmap
  rfl

theorem exit_eq (hfits : (firmware.map 0).size ≤ memoryMapBufferSize) (hfuel : 0 < fuel) :
    exitFromEfiBootServices firmware fuel imageHandle ⟨.new, []⟩ =
      .ok () ⟨MemoryMapHolder.new.store (firmware.map 0), [((firmware.map 0).key,
        firmware.exitBootServices 0 imageHandle (firmware.map 0).key)]⟩ := by
  obtain ⟨fuel, rfl⟩ : ∃ f, fuel = f + 1 := ⟨fuel - 1, by omega⟩
  have hroom : (firmware.map 0).size ≤ MemoryMapHolder.new.memoryMapSize := hfits
  have hmap := congrArg Prod.snd (FirmwareMap.getMemoryMap_of_le hroom)
  exact bind_of_ok (exitRound_eq ⟨.new, []⟩ hmap)

theorem exit_returns_map_iff (hfits : ∀ k, (firmware.map k).size ≤ memoryMapBufferSize)
    (hfuel : 0 < fuel) :
    firmware.LeavesWithMap (exitFromEfiBootServices firmware fuel imageHandle ⟨.new, []⟩) ↔
      firmware.Accepts imageHandle 0 := by
  rw [exit_eq (hfits 0) hfuel]
  constructor
  · rintro ⟨s, k, hok, hlen, _, hlast⟩
    injection hok with _ hs
    subst hs
    obtain rfl : k = 0 := by simpa using hlen.symm
    exact congrArg Prod.snd (Option.some.inj hlast)
  · intro h
    refine ⟨_, 0, rfl, rfl, MemoryMapHolder.new.store_holds _, ?_⟩
    rw [Accepts] at h
    rw [h]
    rfl

/-- Firmware that refuses `n` keys, and whose map grows by a descriptor each time. -/
def changing (n : Nat) : Firmware where
  map k := ⟨List.replicate (48 * (min k n + 1)) 0, min k n, 48, 1⟩
  keyAtExit _ := n
  exitBootServices _ _ key := if key = n then .success else .invalidParameter
  stale k imageHandle key h := by
    rw [if_neg h]
    decide

theorem changing_fits (h : n ≤ 1) (k : Nat) :
    ((changing n).map k).size ≤ memoryMapBufferSize := by
  rw [FirmwareMap.size, changing, memoryMapBufferSize]
  dsimp only
  rw [List.length_replicate]
  omega

theorem exit_returns_map_iff_changing :
    (changing 0).LeavesWithMap (exitFromEfiBootServices (changing 0) 1 0 ⟨.new, []⟩) ∧
      (changing 0).Accepts 0 0 :=
  have haccepts : (changing 0).Accepts 0 0 := rfl
  ⟨(exit_returns_map_iff (changing_fits (by decide)) (by decide)).2 haccepts, haccepts⟩

/-- The first key is refused and the second one would be accepted. -/
theorem refused_key_leaves : (∀ k, ((changing 1).map k).size ≤ memoryMapBufferSize) ∧
    (changing 1).Accepts 0 1 ∧ ∀ fuel, ∃ s,
      exitFromEfiBootServices (changing 1) (fuel + 1) 0 ⟨.new, []⟩ = .ok () s ∧
      s.exits = [(0, .invalidParameter)] ∧
      ¬(changing 1).LeavesWithMap
        (exitFromEfiBootServices (changing 1) (fuel + 1) 0 ⟨.new, []⟩) := by
  refine ⟨changing_fits (by decide), rfl, fun fuel => ?_⟩
  have hrefused : ¬(changing 1).Accepts 0 0 := (changing 1).stale 0 0 0 (by decide)
  refine ⟨_, exit_eq (changing_fits (by decide) 0) (Nat.succ_pos fuel), rfl, fun h => ?_⟩
  exact hrefused ((exit_returns_map_iff (changing_fits (by decide)) (Nat.succ_pos fuel)).1 h)

end Firmware

end Wasabi
