import Wasabi.Pci
import Wasabi.Records

namespace Wasabi
set_option autoImplicit true

structure EfiGuid where
  data0 : Nat
  data1 : Nat
  data2 : Nat
  data3 : List UInt8
  deriving DecidableEq, Repr

def efiAcpiTableGuid : EfiGuid where
  data0 := 0x8868e871
  data1 := 0xe4f1
  data2 := 0x11d3
  data3 := [0xbc, 0x22, 0x00, 0x80, 0xc7, 0x3c, 0x88, 0x81]

def bytesAt (m : Mem) (a n : Nat) : List UInt8 := (List.range n).map fun i => m (a + i)

def EfiGuid.load (m : Mem) (a : Nat) : EfiGuid :=
  ⟨readLe m a 4, readLe m (a + 4) 2, readLe m (a + 6) 2, bytesAt m (a + 8) 8⟩

/-- `EfiSystemTable`, by its address. -/
structure EfiSystemTable where
  addr : Nat

namespace EfiSystemTable

def numberOfTableEntries (this : EfiSystemTable) (m : Mem) : Nat := readLe m (this.addr + 104) 8

def configurationTable (this : EfiSystemTable) (m : Mem) (i : Nat) : Nat :=
  readLe m (this.addr + 112) 8 + i * 24

/-- The `vendor_table` of the first configuration table with the GUID. -/
def lookupConfigTable (this : EfiSystemTable) (m : Mem) (guid : EfiGuid) : Option Nat :=
  (((List.range' 0 (this.numberOfTableEntries m)).map (this.configurationTable m)).find? fun ct =>
    EfiGuid.load m ct = guid).map fun ct => readLe m (ct + 16) 8

def acpiTable (this : EfiSystemTable) (m : Mem) : Option Nat :=
  this.lookupConfigTable m efiAcpiTableGuid

end EfiSystemTable

namespace SystemDescriptionTableHeader

def signature (m : Mem) (header : Nat) : List UInt8 := bytesAt m header 4

def length (m : Mem) (header : Nat) : Nat := readLe m (header + 4) 4

def expectSignature (m : Mem) (header : Nat) (sig : List UInt8) : Except Fault Unit :=
  if signature m header = sig then .ok () else .error .assertion

end SystemDescriptionTableHeader

open SystemDescriptionTableHeader

structure Xsdt where
  addr : Nat

structure XsdtIterator where
  table : Xsdt
  index : Nat

namespace Xsdt

def headerSize : Nat := 36

def numOfEntries (this : Xsdt) (m : Mem) : Except Fault Nat := do
  return (← checkedSub (length m this.addr) headerSize) / 8

def entry (this : Xsdt) (m : Mem) (index : Nat) : Nat :=
  readLe m (this.addr + headerSize + index * 8) 8

def iter (this : Xsdt) : XsdtIterator := ⟨this, 0⟩

end Xsdt

def XsdtIterator.next (m : Mem) (this : XsdtIterator) :
    Except Fault (Option (Nat × XsdtIterator)) := do
  if this.index ≥ (← this.table.numOfEntries m) then return none
  else return some (this.table.entry m this.index, { this with index := this.index + 1 })

/-- The length of a table has 32 bits, so this many rounds are always enough. -/
def Xsdt.findTable (this : Xsdt) (m : Mem) (sig : List UInt8) : Except Fault (Option Nat) :=
  seek .diverged (XsdtIterator.next m) (fun e => signature m e = sig) (2 ^ 29 + 1) this.iter

def newTable (m : Mem) (sig : List UInt8) (header : Nat) : Except Fault Nat := do
  expectSignature m header sig
  return header

def hpetSignature : List UInt8 := [0x48, 0x50, 0x45, 0x54]

def mcfgSignature : List UInt8 := [0x4d, 0x43, 0x46, 0x47]

def GenericAddress.addressInMemorySpace (m : Mem) (a : Nat) : Except Fault Nat :=
  if m a = 0 then .ok (readLe m (a + 4) 8)
  else .error (.err "ACPI Generic Address is not in system memory space")

def AcpiHpetDescriptor.baseAddress (m : Mem) (hpet : Nat) : Except Fault Nat :=
  GenericAddress.addressInMemorySpace m (hpet + 40)

def AcpiMcfgDescriptor.load (m : Mem) (mcfg : Nat) : AcpiMcfgDescriptor :=
  ⟨SystemDescriptionTableHeader.length m mcfg, fun i => ⟨readLe m (mcfg + headerSize + i * 16) 8⟩⟩

structure AcpiRsdpStruct where
  addr : Nat

namespace AcpiRsdpStruct

def xsdt (this : AcpiRsdpStruct) (m : Mem) : Xsdt := ⟨readLe m (this.addr + 24) 8⟩

def table (this : AcpiRsdpStruct) (m : Mem) (sig : List UInt8) : Except Fault (Option Nat) := do
  match ← (this.xsdt m).findTable m sig with
  | none => return none
  | some header => return some (← newTable m sig header)

def hpet (this : AcpiRsdpStruct) (m : Mem) : Except Fault (Option Nat) := this.table m hpetSignature

def mcfg (this : AcpiRsdpStruct) (m : Mem) : Except Fault (Option Nat) := this.table m mcfgSignature

end AcpiRsdpStruct

/-- `init_hpet`, up to the address of the registers. -/
def initHpet (m : Mem) (acpi : AcpiRsdpStruct) : Except Fault Nat := do
  match ← acpi.hpet m with
  | none => throw .unwrap
  | some hpet => unwrap (AcpiHpetDescriptor.baseAddress m hpet)

/-- `init_pci`, up to the probing of the devices. -/
def initPci (m : Mem) (acpi : AcpiRsdpStruct) : Except Fault (Option Pci) := do
  match ← acpi.mcfg m with
  | none => return none
  | some mcfg =>
    discard (AcpiMcfgDescriptor.load m mcfg).numOfEntries
    return some (← Pci.new (.load m mcfg))

def Xsdt.First (this : Xsdt) (m : Mem) (sig : List UInt8) (header : Nat) : Prop :=
  ∃ i, i * 8 + 44 ≤ length m this.addr ∧ this.entry m i = header ∧ signature m header = sig ∧
    ∀ j < i, signature m (this.entry m j) ≠ sig

namespace Xsdt
variable {this : Xsdt} {m : Mem} {sig : List UInt8}

theorem numOfEntries_eq (h : 36 ≤ length m this.addr) :
    this.numOfEntries m = .ok ((length m this.addr - 36) / 8) := by
  rw [numOfEntries, headerSize, checkedSub_ok h]
  rfl

theorem numOfEntries_short (h : length m this.addr < 36) :
    this.numOfEntries m = .error .overflow := by
  rw [numOfEntries, headerSize, checkedSub, if_neg (by omega)]
  rfl

theorem findTable_short (h : length m this.addr < 36) :
    this.findTable m sig = .error .overflow := by
  rw [findTable, seek, iter, XsdtIterator.next, numOfEntries_short h]
  rfl

theorem findTable_eq (h : 36 ≤ length m this.addr) : this.findTable m sig =
    .ok (((List.range' 0 ((length m this.addr - 36) / 8)).map (this.entry m)).find? fun e =>
      signature m e = sig) := by
  have hlt : length m this.addr < 256 ^ 4 := readLe_lt m (this.addr + 4) 4
  have hend : XsdtIterator.next m ⟨this, (length m this.addr - 36) / 8⟩ = .ok none := by
    rw [XsdtIterator.next, numOfEntries_eq h, ok_bind, if_pos (Nat.le_refl _)]
    rfl
  refine seek_eq (XsdtIterator.mk this) _ (fun k hk => ?_) hend (Nat.zero_add _) (by omega)
  rw [XsdtIterator.next, numOfEntries_eq h, ok_bind, if_neg (Nat.not_le_of_lt hk)]
  rfl

theorem findTable_some (h : 36 ≤ length m this.addr) :
    this.findTable m sig = .ok (some header) ↔ this.First m sig header := by
  rw [findTable_eq h, Except.ok.injEq, find_range_iff, First]
  refine exists_congr fun i => ?_
  have hcount : i < (length m this.addr - 36) / 8 ↔ i * 8 + 44 ≤ length m this.addr := by omega
  simp [hcount]

theorem findTable_none (h : 36 ≤ length m this.addr) :
    this.findTable m sig = .ok none ↔ ¬∃ header, this.First m sig header := by
  have hok : this.findTable m sig = _ := findTable_eq h
  cases hfind : ((List.range' 0 ((length m this.addr - 36) / 8)).map (this.entry m)).find? fun e =>
      signature m e = sig with
  | none =>
    rw [hfind] at hok
    refine iff_of_true hok ?_
    rintro ⟨header, hfirst⟩
    rw [← findTable_some h, hok] at hfirst
    cases hfirst
  | some header =>
    rw [hfind] at hok
    refine iff_of_false ?_ (not_not.2 ⟨header, (findTable_some h).1 hok⟩)
    intro hnone
    rw [hok] at hnone
    cases hnone

end Xsdt

theorem Xsdt.First.length_le {this : Xsdt} (h : this.First m sig header) :
    36 ≤ length m this.addr := by
  obtain ⟨i, hi, _⟩ := h
  omega

theorem AcpiRsdpStruct.table_eq (this : AcpiRsdpStruct) (m : Mem) (sig : List UInt8) :
    this.table m sig = (this.xsdt m).findTable m sig := by
  rw [table]
  rcases Nat.lt_or_ge (length m (this.xsdt m).addr) 36 with hshort | hlen
  · rw [Xsdt.findTable_short hshort]
    rfl
  · cases hfind : (this.xsdt m).findTable m sig with
    | error e => rfl
    | ok r =>
      cases r with
      | none => rfl
      | some header =>
        obtain ⟨_, _, _, hsig, _⟩ := (Xsdt.findTable_some hlen).1 hfind
        rw [ok_bind]
        dsimp only
        rw [newTable, expectSignature, if_pos hsig]
        rfl

theorem EfiSystemTable.acpiTable_iff (this : EfiSystemTable) (m : Mem) (rsdp : Nat) :
    this.acpiTable m = some rsdp ↔ ∃ i < this.numberOfTableEntries m,
      EfiGuid.load m (this.configurationTable m i) = efiAcpiTableGuid ∧
      readLe m (this.configurationTable m i + 16) 8 = rsdp ∧
      ∀ j < i, EfiGuid.load m (this.configurationTable m j) ≠ efiAcpiTableGuid := by
  rw [acpiTable, lookupConfigTable, Option.map_eq_some_iff]
  simp only [find_range_iff, decide_eq_true_eq, decide_eq_false_iff_not]
  constructor
  · rintro ⟨ct, ⟨i, hi, rfl, hguid, hbefore⟩, hrsdp⟩
    exact ⟨i, hi, hguid, hrsdp, hbefore⟩
  · rintro ⟨i, hi, hguid, hrsdp, hbefore⟩
    exact ⟨_, ⟨i, hi, rfl, hguid, hbefore⟩, hrsdp⟩

theorem initHpet_iff (m : Mem) (acpi : AcpiRsdpStruct) (base : Nat) :
    initHpet m acpi = .ok base ↔ ∃ hpet, (acpi.xsdt m).First m hpetSignature hpet ∧
      m (hpet + 40) = 0 ∧ readLe m (hpet + 44) 8 = base := by
  rw [initHpet, AcpiRsdpStruct.hpet, AcpiRsdpStruct.table_eq]
  constructor
  · intro h
    obtain ⟨r, hfind, h⟩ := exists_of_bind h
    rcases Nat.lt_or_ge (length m (acpi.xsdt m).addr) 36 with hshort | hlen
    · rw [Xsdt.findTable_short hshort] at hfind
      cases hfind
    · cases r with
      | none => cases h
      | some hpet =>
        refine ⟨hpet, (Xsdt.findTable_some hlen).1 hfind, ?_⟩
        dsimp only at h
        rw [AcpiHpetDescriptor.baseAddress, GenericAddress.addressInMemorySpace] at h
        split at h
        · next hspace => exact ⟨hspace, Except.ok.inj h⟩
        · cases h
  · rintro ⟨hpet, hfirst, hspace, rfl⟩
    rw [(Xsdt.findTable_some hfirst.length_le).2 hfirst, ok_bind]
    dsimp only
    rw [AcpiHpetDescriptor.baseAddress, GenericAddress.addressInMemorySpace, if_pos hspace]
    rfl

theorem AcpiMcfgDescriptor.numOfEntries_iff (mcfg : AcpiMcfgDescriptor) (n : Nat) :
    mcfg.numOfEntries = .ok n ↔ 44 ≤ mcfg.length ∧ (mcfg.length - 44) / 16 = n := by
  rw [numOfEntries, headerSize]
  rcases Nat.lt_or_ge mcfg.length 44 with hshort | hlen
  · rw [checkedSub, if_neg (by omega)]
    exact iff_of_false (fun h => nomatch h) (by omega)
  · rw [checkedSub_ok hlen]
    exact ⟨fun h => ⟨hlen, Except.ok.inj h⟩, fun ⟨_, h⟩ => congrArg Except.ok h⟩

theorem Pci.new_iff (mcfg : AcpiMcfgDescriptor) (pci : Pci) :
    Pci.new mcfg = .ok pci ↔ 60 ≤ mcfg.length ∧ mcfg.length < 76 ∧
      (mcfg.table 0).ecmBaseAddr + 2 ^ 24 < 2 ^ 64 ∧
      ⟨(mcfg.table 0).ecmBaseAddr, (mcfg.table 0).ecmBaseAddr + 2 ^ 24⟩ = pci := by
  have hshift : 1 <<< 24 = 2 ^ 24 := Nat.one_shiftLeft 24
  have hentry : mcfg.numOfEntries = .ok 1 → mcfg.entry 0 = .ok (some (mcfg.table 0)) := by
    intro hn
    rw [AcpiMcfgDescriptor.entry, hn]
    rfl
  rw [Pci.new, hshift]
  constructor
  · intro h
    obtain ⟨n, hn, h⟩ := exists_of_bind h
    split at h
    · cases h
    · next hone =>
      obtain rfl : n = 1 := not_not.1 hone
      obtain ⟨hlo, hcount⟩ := (mcfg.numOfEntries_iff 1).1 hn
      rw [hentry hn, ok_bind] at h
      obtain ⟨stop, hstop, h⟩ := exists_of_bind h
      cases h
      have heq := checkedAdd_eq hstop
      rw [checkedAdd] at hstop
      split at hstop
      · next hlt => exact ⟨by omega, by omega, hlt, by rw [heq]⟩
      · cases hstop
  · rintro ⟨hlo, hhi, hlt, rfl⟩
    have hn := (mcfg.numOfEntries_iff 1).2 ⟨by omega, by omega⟩
    rw [hn, ok_bind, if_neg (not_not.2 rfl), hentry hn, ok_bind]
    dsimp only
    rw [checkedAdd_ok hlt]
    rfl

theorem initPci_none_iff (m : Mem) (acpi : AcpiRsdpStruct) : initPci m acpi = .ok none ↔
    36 ≤ length m (acpi.xsdt m).addr ∧ ¬∃ mcfg, (acpi.xsdt m).First m mcfgSignature mcfg := by
  rw [initPci, AcpiRsdpStruct.mcfg, AcpiRsdpStruct.table_eq]
  rcases Nat.lt_or_ge (length m (acpi.xsdt m).addr) 36 with hshort | hlen
  · rw [Xsdt.findTable_short hshort]
    exact iff_of_false (fun h => nomatch h) (by omega)
  · rw [← Xsdt.findTable_none hlen, and_iff_right hlen]
    constructor
    · intro h
      obtain ⟨r, hfind, h⟩ := exists_of_bind h
      cases r with
      | none => exact hfind
      | some mcfg =>
        obtain ⟨_, _, h⟩ := exists_of_bind h
        obtain ⟨_, _, h⟩ := exists_of_bind h
        cases h
    · intro h
      rw [h]
      rfl

theorem initPci_some_iff (m : Mem) (acpi : AcpiRsdpStruct) (pci : Pci) :
    initPci m acpi = .ok (some pci) ↔ ∃ mcfg, (acpi.xsdt m).First m mcfgSignature mcfg ∧
      60 ≤ length m mcfg ∧ length m mcfg < 76 ∧ readLe m (mcfg + 44) 8 + 2 ^ 24 < 2 ^ 64 ∧
      ⟨readLe m (mcfg + 44) 8, readLe m (mcfg + 44) 8 + 2 ^ 24⟩ = pci := by
  rw [initPci, AcpiRsdpStruct.mcfg, AcpiRsdpStruct.table_eq]
  constructor
  · intro h
    obtain ⟨r, hfind, h⟩ := exists_of_bind h
    rcases Nat.lt_or_ge (length m (acpi.xsdt m).addr) 36 with hshort | hlen
    · rw [Xsdt.findTable_short hshort] at hfind
      cases hfind
    · cases r with
      | none => cases h
      | some mcfg =>
        obtain ⟨_, _, h⟩ := exists_of_bind h
        obtain ⟨_, hnew, h⟩ := exists_of_bind h
        cases h
        exact ⟨mcfg, (Xsdt.findTable_some hlen).1 hfind, (Pci.new_iff _ _).1 hnew⟩
  · rintro ⟨mcfg, hfirst, hnew⟩
    have hnew := (Pci.new_iff (.load m mcfg) pci).2 hnew
    obtain ⟨n, hn, _⟩ := exists_of_bind hnew
    rw [(Xsdt.findTable_some hfirst.length_le).2 hfirst, ok_bind]
    dsimp only
    rw [hn, hnew]
    rfl

/-- Over any memory that the firmware leaves: the ACPI table is that of the first configuration
table with its GUID, the HPET and the configuration space of PCI are those of the first tables with
their signatures, and `init_pci` goes on only with exactly one range of buses. -/
theorem acpi_tables_exact (m : Mem) (systemTable : EfiSystemTable) (acpi : AcpiRsdpStruct) :
    (∀ rsdp, systemTable.acpiTable m = some rsdp ↔ ∃ i < systemTable.numberOfTableEntries m,
      EfiGuid.load m (systemTable.configurationTable m i) = efiAcpiTableGuid ∧
      readLe m (systemTable.configurationTable m i + 16) 8 = rsdp ∧
      ∀ j < i, EfiGuid.load m (systemTable.configurationTable m j) ≠ efiAcpiTableGuid) ∧
    (∀ base, initHpet m acpi = .ok base ↔ ∃ hpet, (acpi.xsdt m).First m hpetSignature hpet ∧
      m (hpet + 40) = 0 ∧ readLe m (hpet + 44) 8 = base) ∧
    (initPci m acpi = .ok none ↔
      36 ≤ length m (acpi.xsdt m).addr ∧ ¬∃ mcfg, (acpi.xsdt m).First m mcfgSignature mcfg) ∧
    ∀ pci, initPci m acpi = .ok (some pci) ↔ ∃ mcfg, (acpi.xsdt m).First m mcfgSignature mcfg ∧
      60 ≤ length m mcfg ∧ length m mcfg < 76 ∧ readLe m (mcfg + 44) 8 + 2 ^ 24 < 2 ^ 64 ∧
      ⟨readLe m (mcfg + 44) 8, readLe m (mcfg + 44) 8 + 2 ^ 24⟩ = pci :=
  ⟨systemTable.acpiTable_iff m, initHpet_iff m acpi, initPci_none_iff m acpi,
    initPci_some_iff m acpi⟩

end Wasabi
