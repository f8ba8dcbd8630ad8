import Wasabi.Bytes
import Wasabi.Tiling
import Wasabi.Usize
import Mathlib.Data.List.Range

namespace Wasabi
set_option autoImplicit true

structure EcamEntry where
  ecmBaseAddr : Nat
  deriving DecidableEq, Repr

/-- The table as firmware leaves it: the length in its header and the entries behind it. -/
structure AcpiMcfgDescriptor where
  length : Nat
  table : Nat → EcamEntry

namespace AcpiMcfgDescriptor

def headerSize : Nat := 44

def numOfEntries (mcfg : AcpiMcfgDescriptor) : Except Fault Nat := do
  return (← checkedSub mcfg.length headerSize) / 16

def entry (mcfg : AcpiMcfgDescriptor) (index : Nat) : Except Fault (Option EcamEntry) := do
  if index ≥ (← mcfg.numOfEntries) then return none else return some (mcfg.table index)

end AcpiMcfgDescriptor

structure BusDeviceFunction where
  id : BitVec 16
  deriving DecidableEq, Repr

namespace BusDeviceFunction

def bus (this : BusDeviceFunction) : Nat := (this.id.toNat &&& 0b1111111100000000) >>> 8

theorem bus_eq (this : BusDeviceFunction) : this.bus = this.id.toNat / 256 := by
  have hlt := this.id.isLt
  have hbus : this.id.toNat / 2 ^ 8 < 2 ^ 8 := by omega
  rw [bus, Nat.shiftRight_and_distrib, Nat.shiftRight_eq_div_pow]
  exact (Nat.and_two_pow_sub_one_eq_mod _ 8).trans (Nat.mod_eq_of_lt hbus)

end BusDeviceFunction

structure BusDeviceFunctionIterator where
  nextId : Nat

namespace BusDeviceFunctionIterator

def next (this : BusDeviceFunctionIterator) :
    Option BusDeviceFunction × BusDeviceFunctionIterator :=
  if this.nextId > 0xffff then (none, this)
  else (some ⟨BitVec.ofNat 16 this.nextId⟩, ⟨this.nextId + 1⟩)

/-- What a loop over the iterator sees, up to `fuel` functions. -/
def collect : Nat → BusDeviceFunctionIterator → List BusDeviceFunction
  | 0, _ => []
  | fuel + 1, this =>
    match this.next with
    | (none, _) => []
    | (some bdf, this) => bdf :: collect fuel this

theorem collect_eq (this : BusDeviceFunctionIterator) (h : 0x10000 - this.nextId ≤ fuel) :
    collect fuel this =
      (List.range' this.nextId (0x10000 - this.nextId)).map fun id => ⟨BitVec.ofNat 16 id⟩ := by
  induction fuel generalizing this with
  | zero =>
    rw [Nat.le_zero.1 h]
    rfl
  | succ fuel ih =>
    by_cases hlt : this.nextId > 0xffff
    · rw [collect, next, if_pos hlt, Nat.sub_eq_zero_of_le (by omega)]
      rfl
    · obtain ⟨n, hn⟩ : ∃ n, 0x10000 - this.nextId = n + 1 := ⟨0xffff - this.nextId, by omega⟩
      have hrest : 0x10000 - (this.nextId + 1) = n := by omega
      rw [collect, next, if_neg hlt, hn, List.range'_succ, List.map_cons]
      dsimp only
      rw [ih ⟨this.nextId + 1⟩ (by dsimp only; omega)]
      dsimp only
      rw [hrest]

end BusDeviceFunctionIterator

/-- The functions that a loop over `BusDeviceFunction::iter` visits. -/
def BusDeviceFunction.iter : List BusDeviceFunction :=
  BusDeviceFunctionIterator.collect 0x10001 ⟨0⟩

theorem BusDeviceFunction.mem_iter (bdf : BusDeviceFunction) : bdf ∈ iter := by
  rw [iter, BusDeviceFunctionIterator.collect_eq _ (by decide), List.mem_map]
  have hlt := bdf.id.isLt
  refine ⟨bdf.id.toNat, ?_, ?_⟩
  · rw [List.mem_range'_1]
    dsimp only
    omega
  · rw [BitVec.ofNat_toNat, BitVec.setWidth_eq]

namespace ConfigRegisters

def pointer (size ecmBase byteOffset : Nat) (msg : String) : Except Fault Nat :=
  if ¬byteOffset < 256 ∨ byteOffset % size ≠ 0 then .error (.err msg)
  else .ok (ecmBase + byteOffset / size * size)

def read (size : Nat) (m : Mem) (ecmBase byteOffset : Nat) : Except Fault Nat := do
  return readLe m (← pointer size ecmBase byteOffset "PCI ConfigRegisters read out of range") size

def write (size : Nat) (m : Mem) (ecmBase byteOffset data : Nat) : Except Fault Mem := do
  return writeLe m (← pointer size ecmBase byteOffset "PCI ConfigRegisters write out of range")
    size data

theorem pointer_ok (h : pointer size ecmBase byteOffset msg = .ok p) (msg' : String) :
    pointer size ecmBase byteOffset msg' = .ok p := by
  rw [pointer] at h ⊢
  split at h
  · cases h
  · next hin => rwa [if_neg hin]

end ConfigRegisters

structure Pci where
  ecmRange : Nat × Nat

namespace Pci

def new (mcfg : AcpiMcfgDescriptor) : Except Fault Pci := do
  if (← mcfg.numOfEntries) ≠ 1 then
    throw .assertion
  match ← mcfg.entry 0 with
  | none => throw .unwrap
  | some entry => return ⟨entry.ecmBaseAddr, ← checkedAdd entry.ecmBaseAddr (1 <<< 24)⟩

def ecmBase (pci : Pci) (id : BusDeviceFunction) : Except Fault Nat :=
  checkedAdd pci.ecmRange.1 (id.id.toNat <<< 12)

def readRegisterU16 (pci : Pci) (m : Mem) (bdf : BusDeviceFunction) (byteOffset : Nat) :
    Except Fault Nat := do
  ConfigRegisters.read 2 m (← pci.ecmBase bdf) byteOffset

def readRegisterU32 (pci : Pci) (m : Mem) (bdf : BusDeviceFunction) (byteOffset : Nat) :
    Except Fault Nat := do
  ConfigRegisters.read 4 m (← pci.ecmBase bdf) byteOffset

def writeRegisterU32 (pci : Pci) (m : Mem) (bdf : BusDeviceFunction) (byteOffset data : Nat) :
    Except Fault Mem := do
  ConfigRegisters.write 4 m (← pci.ecmBase bdf) byteOffset data

/-- An access of `size` bytes at `byteOffset` of a function goes to the address `p`. -/
def Accesses (pci : Pci) (bdf : BusDeviceFunction) (size byteOffset p : Nat) : Prop :=
  ∃ base msg, pci.ecmBase bdf = .ok base ∧ ConfigRegisters.pointer size base byteOffset msg = .ok p

theorem accesses_iff {pci : Pci} (hbase : pci.ecmRange.1 + 2 ^ 28 < 2 ^ 64) :
    pci.Accesses bdf size byteOffset p ↔ byteOffset < 256 ∧ byteOffset % size = 0 ∧
      p = pci.ecmRange.1 + bdf.id.toNat * 4096 + byteOffset := by
  have hid := bdf.id.isLt
  have hshift : bdf.id.toNat <<< 12 = bdf.id.toNat * 4096 := Nat.shiftLeft_eq _ _
  have hecm : pci.ecmBase bdf = .ok (pci.ecmRange.1 + bdf.id.toNat * 4096) := by
    rw [ecmBase, hshift, checkedAdd_ok (by omega)]
  have hdiv := Nat.div_add_mod byteOffset size
  have hmul : byteOffset % size = 0 → byteOffset / size * size = byteOffset := by
    intro hmod
    rw [hmod, Nat.mul_comm] at hdiv
    exact hdiv
  constructor
  · rintro ⟨base, msg, hb, hp⟩
    rw [hecm] at hb
    cases hb
    rw [ConfigRegisters.pointer] at hp
    split at hp
    · cases hp
    · next hin =>
      cases hp
      rw [not_or, not_not, not_not] at hin
      exact ⟨hin.1, hin.2, by rw [hmul hin.2]⟩
  · rintro ⟨hlt, hmod, rfl⟩
    refine ⟨_, "", hecm, ?_⟩
    rw [ConfigRegisters.pointer, if_neg (by rw [not_or, not_not, not_not]; exact ⟨hlt, hmod⟩),
      hmul hmod]

/-- A read or a write at `byteOffset` is one of the `size` bytes at `p`. They are inside the window,
and no access to another function or to another offset of the function shares one of them; the
offsets are aligned to both sizes. -/
structure AccessSafe (pci : Pci) (bdf : BusDeviceFunction) (size byteOffset p : Nat) : Prop where
  readsU16 : size = 2 → ∀ m, pci.readRegisterU16 m bdf byteOffset = .ok (readLe m p size)
  readsU32 : size = 4 → ∀ m, pci.readRegisterU32 m bdf byteOffset = .ok (readLe m p size)
  writesU32 : size = 4 → ∀ m data,
    pci.writeRegisterU32 m bdf byteOffset data = .ok (writeLe m p size data)
  inside : pci.ecmRange.1 ≤ p ∧ p + size ≤ pci.ecmRange.2
  functions : ∀ bdf' ∈ BusDeviceFunction.iter, bdf' ≠ bdf → ∀ size' byteOffset' p',
    size' = 2 ∨ size' = 4 → pci.Accesses bdf' size' byteOffset' p' → Apart p size p' size'
  offsets : ∀ size' byteOffset' p', size' = 2 ∨ size' = 4 → byteOffset' ≠ byteOffset →
    byteOffset % size' = 0 → byteOffset' % size = 0 →
    pci.Accesses bdf size' byteOffset' p' → Apart p size p' size'

theorem new_range (h : Pci.new mcfg = .ok pci) : pci.ecmRange.2 = pci.ecmRange.1 + 2 ^ 24 := by
  obtain ⟨num, _, h⟩ := exists_of_bind h
  split at h
  · cases h
  · obtain ⟨entry, _, h⟩ := exists_of_bind h
    cases entry with
    | none => cases h
    | some entry =>
      obtain ⟨stop, hstop, h⟩ := exists_of_bind h
      cases h
      rw [checkedAdd_eq hstop, Nat.one_shiftLeft]

section
variable {pci : Pci} {bdf : BusDeviceFunction} {size : Nat}

theorem Accesses.inside (hrange : pci.ecmRange.2 = pci.ecmRange.1 + 2 ^ 24)
    (hbase : pci.ecmRange.1 + 2 ^ 28 < 2 ^ 64) (hbus : bdf.bus < 16) (hsize : size = 2 ∨ size = 4)
    (hp : pci.Accesses bdf size byteOffset p) : pci.ecmRange.1 ≤ p ∧ p + size ≤ pci.ecmRange.2 := by
  obtain ⟨hlt, hmod, rfl⟩ := (accesses_iff hbase).1 hp
  rw [BusDeviceFunction.bus_eq] at hbus
  rcases hsize with rfl | rfl <;> omega

theorem Accesses.reads (hp : pci.Accesses bdf size byteOffset p) (m : Mem) :
    (pci.ecmBase bdf >>= fun base => ConfigRegisters.read size m base byteOffset) =
      .ok (readLe m p size) := by
  obtain ⟨base, msg, hb, hp⟩ := hp
  rw [hb, ok_bind, ConfigRegisters.read, ConfigRegisters.pointer_ok hp]
  rfl

theorem Accesses.writes (hp : pci.Accesses bdf size byteOffset p) (m : Mem) (data : Nat) :
    (pci.ecmBase bdf >>= fun base => ConfigRegisters.write size m base byteOffset data) =
      .ok (writeLe m p size data) := by
  obtain ⟨base, msg, hb, hp⟩ := hp
  rw [hb, ok_bind, ConfigRegisters.write, ConfigRegisters.pointer_ok hp]
  rfl

end

/-- The window that `Pci::new` records has room for 16 of the 256 buses. -/
theorem access_safe_iff (hnew : Pci.new mcfg = .ok pci) (hbase : pci.ecmRange.1 + 2 ^ 28 < 2 ^ 64)
    (hbdf : bdf ∈ BusDeviceFunction.iter) (hsize : size = 2 ∨ size = 4)
    (hp : pci.Accesses bdf size byteOffset p) :
    pci.AccessSafe bdf size byteOffset p ↔ bdf.bus < 16 := by
  have hrange := new_range hnew
  constructor
  · intro hsafe
    have hinside := hsafe.inside
    obtain ⟨hlt, hmod, rfl⟩ := (accesses_iff hbase).1 hp
    rw [BusDeviceFunction.bus_eq]
    omega
  · intro hbus
    have hinside := hp.inside hrange hbase hbus hsize
    have hreads := hp.reads
    have hwrites := hp.writes
    obtain ⟨hlt, hmod, rfl⟩ := (accesses_iff hbase).1 hp
    constructor
    case readsU16 =>
      rintro rfl m
      exact hreads m
    case readsU32 =>
      rintro rfl m
      exact hreads m
    case writesU32 =>
      rintro rfl m data
      exact hwrites m data
    case inside => exact hinside
    case functions =>
      intro bdf' _ hne size' byteOffset' p' hsize' hp'
      obtain ⟨hlt', hmod', rfl⟩ := (accesses_iff hbase).1 hp'
      have hid : bdf'.id.toNat ≠ bdf.id.toNat := by
        intro he
        cases bdf
        cases bdf'
        exact hne (congrArg BusDeviceFunction.mk (BitVec.eq_of_toNat_eq he))
      unfold Apart
      omega
    case offsets =>
      intro size' byteOffset' p' hsize' hne hmod₁ hmod₂ hp'
      obtain ⟨hlt', hmod', rfl⟩ := (accesses_iff hbase).1 hp'
      unfold Apart
      rcases hsize with rfl | rfl <;> rcases hsize' with rfl | rfl <;> omega

theorem access_safe_single :
    (Pci.mk (0xb0000000, 0xb1000000)).AccessSafe ⟨0⟩ 2 0 0xb0000000 ↔
      (⟨0⟩ : BusDeviceFunction).bus < 16 :=
  have hnew : Pci.new ⟨60, fun _ => ⟨0xb0000000⟩⟩ = .ok ⟨0xb0000000, 0xb1000000⟩ := rfl
  access_safe_iff hnew (by decide) (BusDeviceFunction.mem_iter _) (.inl rfl)
    ⟨0xb0000000, "", rfl, rfl⟩

/-- The vendor id of function 0 of device 0 on bus 16 is read past the end of the window. -/
theorem bus_sixteen_outside : ∃ pci, Pci.new ⟨60, fun _ => ⟨0xb0000000⟩⟩ = .ok pci ∧
    ⟨0x1000⟩ ∈ BusDeviceFunction.iter ∧ pci.Accesses ⟨0x1000⟩ 2 0 0xb1000000 ∧
    ¬pci.AccessSafe ⟨0x1000⟩ 2 0 0xb1000000 := by
  refine ⟨⟨0xb0000000, 0xb1000000⟩, rfl, BusDeviceFunction.mem_iter _,
    ⟨0xb1000000, "", rfl, rfl⟩, fun hsafe => ?_⟩
  have hinside := hsafe.inside.2
  dsimp only at hinside
  omega

end Pci

end Wasabi
