import Wasabi.BootServices
import Wasabi.Records
import Wasabi.Uefi

namespace Wasabi
set_option autoImplicit true

namespace EfiMemoryType

def code : EfiMemoryType → Nat
  | .reserved => 0
  | .loaderCode => 1
  | .loaderData => 2
  | .bootServicesCode => 3
  | .bootServicesData => 4
  | .runtimeServicesCode => 5
  | .runtimeServicesData => 6
  | .conventionalMemory => 7
  | .unusableMemory => 8
  | .acpiReclaimMemory => 9
  | .acpiMemoryNvs => 10
  | .memoryMappedIo => 11
  | .memoryMappedIoPortSpace => 12
  | .palCode => 13
  | .persistentMemory => 14
  | .unnamed code => code

def all : List EfiMemoryType :=
  [.reserved, .loaderCode, .loaderData, .bootServicesCode, .bootServicesData, .runtimeServicesCode,
    .runtimeServicesData, .conventionalMemory, .unusableMemory, .acpiReclaimMemory, .acpiMemoryNvs,
    .memoryMappedIo, .memoryMappedIoPortSpace, .palCode, .persistentMemory]

def ofCode (n : Nat) : EfiMemoryType := all[n]?.getD (.unnamed n)

/-- A code that fits its field, and has no name if it is given without one. -/
def Encodes (t : EfiMemoryType) : Prop := ∀ code, t = .unnamed code → 15 ≤ code ∧ code < 2 ^ 32

theorem ofCode_code {t : EfiMemoryType} (h : t.Encodes) : ofCode t.code = t := by
  cases t with
  | unnamed code =>
    have hnone : all[code]? = none := List.getElem?_eq_none (h code rfl).1
    rw [ofCode, EfiMemoryType.code, hnone]
    rfl
  | _ => rfl

theorem code_lt {t : EfiMemoryType} (h : t.Encodes) : t.code < 2 ^ 32 := by
  cases t with
  | unnamed code => exact (h code rfl).2
  | _ => decide

end EfiMemoryType

namespace MemoryMapHolder

/-- The bytes from `memory_map_buffer.as_ptr()` on. -/
def bytes (this : MemoryMapHolder) : List UInt8 := this.memoryMapBuffer.toList

section
variable (behind : Mem)

/-- The memory from the buffer on, where `behind` is what lies behind it. -/
def memory (this : MemoryMapHolder) : Mem := fun a =>
  if a < memoryMapBufferSize then listMem this.bytes a else behind a

/-- The descriptor at an offset, wherever that is. -/
def descriptor (this : MemoryMapHolder) (ofs : Nat) : EfiMemoryDescriptor where
  memoryType := .ofCode (readLe (this.memory behind) ofs 4)
  physicalStart := readLe (this.memory behind) (ofs + 8) 8
  numberOfPages := readLe (this.memory behind) (ofs + 24) 8

end

end MemoryMapHolder

structure MemoryMapIterator where
  map : MemoryMapHolder
  ofs : Nat

def MemoryMapHolder.iter (this : MemoryMapHolder) : MemoryMapIterator := ⟨this, 0⟩

def MemoryMapIterator.next (behind : Mem) (this : MemoryMapIterator) :
    Except Fault (Option (EfiMemoryDescriptor × MemoryMapIterator)) :=
  if this.map.memoryMapSize ≤ this.ofs then return none
  else do
    let e := this.map.descriptor behind this.ofs
    let ofs ← checkedAdd this.ofs this.map.descriptorSize
    return some (e, { this with ofs := ofs })

namespace MemoryMapHolder

/-- What a `for` loop over `iter` sees in at most `fuel` rounds. -/
def descriptors (behind : Mem) (this : MemoryMapHolder) (fuel : Nat) :
    Except Fault (List EfiMemoryDescriptor) :=
  drain .diverged (MemoryMapIterator.next behind) fuel this.iter

/-- How many multiples of the descriptor size lie before the end of the map. -/
def entries (this : MemoryMapHolder) : Nat :=
  (this.memoryMapSize + this.descriptorSize - 1) / this.descriptorSize

/-- The offset moves, and does not overflow on its way to the end. -/
def Terminates (this : MemoryMapHolder) : Prop :=
  this.memoryMapSize = 0 ∨ 0 < this.descriptorSize ∧ this.entries * this.descriptorSize < 2 ^ 64

variable {this : MemoryMapHolder} {behind : Mem}

theorem lt_entries (h : 0 < this.descriptorSize) :
    k < this.entries ↔ k * this.descriptorSize < this.memoryMapSize := by
  rw [entries, Nat.lt_div_iff_mul_lt h]
  omega

theorem next_end (h : this.memoryMapSize ≤ ofs) :
    MemoryMapIterator.next behind ⟨this, ofs⟩ = .ok none := by
  rw [MemoryMapIterator.next, if_pos h]
  rfl

theorem next_item (h : k * this.descriptorSize < this.memoryMapSize) :
    MemoryMapIterator.next behind ⟨this, k * this.descriptorSize⟩ =
      (checkedAdd (k * this.descriptorSize) this.descriptorSize).map fun ofs =>
        some (this.descriptor behind (k * this.descriptorSize), ⟨this, ofs⟩) := by
  rw [MemoryMapIterator.next, if_neg (Nat.not_le_of_lt h)]
  cases checkedAdd (k * this.descriptorSize) this.descriptorSize <;> rfl

theorem descriptors_eq (hpos : 0 < this.descriptorSize)
    (hlt : this.entries * this.descriptorSize < 2 ^ 64) (hfuel : this.entries < fuel) :
    this.descriptors behind fuel =
      .ok ((List.range this.entries).map
        fun k => this.descriptor behind (k * this.descriptorSize)) := by
  have hstart : this.iter = ⟨this, 0 * this.descriptorSize⟩ := by
    rw [iter, Nat.zero_mul]
  have hitem : ∀ k < this.entries, MemoryMapIterator.next behind ⟨this, k * this.descriptorSize⟩ =
      (Except.ok (this.descriptor behind (k * this.descriptorSize))).map fun e =>
        some (e, ⟨this, (k + 1) * this.descriptorSize⟩) := by
    intro k hk
    have hle := Nat.mul_le_mul_right this.descriptorSize hk
    rw [Nat.succ_mul] at hle
    rw [next_item ((lt_entries hpos).1 hk), checkedAdd_ok (by omega), Nat.succ_mul]
    rfl
  have hend : MemoryMapIterator.next behind ⟨this, this.entries * this.descriptorSize⟩ =
      .ok none := by
    refine next_end (Nat.le_of_not_lt fun h => ?_)
    exact absurd ((lt_entries hpos).2 h) (Nat.lt_irrefl _)
  rw [descriptors, hstart, drain_eq (fun k => MemoryMapIterator.mk this (k * this.descriptorSize)) _
    hitem hend (Nat.zero_add _) hfuel, List.range_eq_range']
  exact mapM_ok_iff.2 (List.forall₂_map_right_iff.2 (List.forall₂_same.2 fun _ _ => rfl))

theorem descriptors_stuck (hzero : this.descriptorSize = 0) (hsize : 0 < this.memoryMapSize)
    (fuel : Nat) : this.descriptors behind fuel ≠ .ok ds := by
  unfold descriptors
  induction fuel generalizing ds with
  | zero => exact fun h => nomatch h
  | succ fuel ih =>
    intro h
    obtain ⟨r, hnext, h⟩ := exists_of_bind h
    rw [iter, MemoryMapIterator.next, if_neg (Nat.not_le_of_lt hsize), hzero] at hnext
    cases hnext
    obtain ⟨es, hes, _⟩ := exists_of_bind h
    exact ih hes

theorem drain_bounded (hpos : 0 < this.descriptorSize)
    (h : drain .diverged (MemoryMapIterator.next behind) fuel ⟨this, k * this.descriptorSize⟩ =
      .ok ds) (hlt : k * this.descriptorSize < 2 ^ 64) (hk : k ≤ this.entries) :
    this.entries * this.descriptorSize < 2 ^ 64 := by
  induction fuel generalizing k ds with
  | zero => cases h
  | succ fuel ih =>
    by_cases hin : k * this.descriptorSize < this.memoryMapSize
    · obtain ⟨r, hnext, h⟩ := exists_of_bind h
      rw [next_item hin] at hnext
      by_cases hsum : k * this.descriptorSize + this.descriptorSize < 2 ^ 64
      · rw [checkedAdd_ok hsum, ← Nat.succ_mul] at hnext
        cases hnext
        obtain ⟨es, hes, _⟩ := exists_of_bind h
        exact ih hes (by rwa [Nat.succ_mul]) ((lt_entries hpos).2 hin)
      · rw [checkedAdd, if_neg hsum] at hnext
        cases hnext
    · have hle : this.entries ≤ k := Nat.le_of_not_lt fun h => hin ((lt_entries hpos).1 h)
      rwa [Nat.le_antisymm hle hk]

theorem descriptors_ok_iff {ds : List EfiMemoryDescriptor} :
    (∃ fuel, this.descriptors behind fuel = .ok ds) ↔ this.Terminates ∧
      ds = (List.range this.entries).map fun k =>
        this.descriptor behind (k * this.descriptorSize) := by
  rcases Nat.eq_zero_or_pos this.memoryMapSize with hempty | hsize
  · have hentries : this.entries = 0 := by
      rw [entries, hempty, Nat.zero_add]
      exact Nat.div_eq_zero_iff.2 (by omega)
    have hok : ∀ fuel, this.descriptors behind (fuel + 1) = .ok [] := by
      intro fuel
      rw [descriptors, drain, iter, next_end (by omega)]
      rfl
    rw [hentries]
    constructor
    · rintro ⟨fuel, h⟩
      cases fuel with
      | zero => cases h
      | succ fuel => exact ⟨.inl hempty, (Except.ok.inj ((hok fuel).symm.trans h)).symm⟩
    · rintro ⟨_, rfl⟩
      exact ⟨1, hok 0⟩
  · constructor
    · rintro ⟨fuel, h⟩
      have hpos : 0 < this.descriptorSize := by
        apply Nat.pos_of_ne_zero
        intro hzero
        exact descriptors_stuck hzero hsize fuel h
      have hstart : this.iter = ⟨this, 0 * this.descriptorSize⟩ := by
        rw [iter, Nat.zero_mul]
      have hlt : this.entries * this.descriptorSize < 2 ^ 64 := by
        rw [descriptors, hstart] at h
        exact drain_bounded hpos h (by omega) (Nat.zero_le _)
      have hmore : this.descriptors behind (fuel + this.entries + 1) = .ok ds :=
        drain_mono h (by omega)
      rw [descriptors_eq hpos hlt (by omega)] at hmore
      exact ⟨.inr ⟨hpos, hlt⟩, (Except.ok.inj hmore).symm⟩
    · rintro ⟨hends, rfl⟩
      rcases hends with hempty | ⟨hpos, hlt⟩
      · omega
      · exact ⟨this.entries + 1, descriptors_eq hpos hlt (by omega)⟩

end MemoryMapHolder

/-- A descriptor as the firmware lays it out, with what later revisions put behind it. -/
structure FirmwareDescriptor extends EfiMemoryDescriptor where
  padding : BitVec 32
  virtualStart : BitVec 64
  efiAttribute : BitVec 64
  rest : List UInt8
  encodes : memoryType.Encodes
  start_lt : physicalStart < 2 ^ 64
  pages_lt : numberOfPages < 2 ^ 64

namespace FirmwareDescriptor

def bytes (d : FirmwareDescriptor) : List UInt8 :=
  leBytes 4 d.memoryType.code ++ leBytes 4 d.padding.toNat ++ leBytes 8 d.physicalStart ++
    leBytes 8 d.virtualStart.toNat ++ leBytes 8 d.numberOfPages ++ leBytes 8 d.efiAttribute.toNat ++
    d.rest

theorem length_bytes (d : FirmwareDescriptor) : d.bytes.length = 40 + d.rest.length := by
  simp only [bytes, List.length_append, length_leBytes]

end FirmwareDescriptor

def FirmwareMap.ofDescriptors (ds : List FirmwareDescriptor) (key descriptorSize : Nat)
    (descriptorVersion : BitVec 32) : FirmwareMap :=
  ⟨ds.flatMap (·.bytes), key, descriptorSize, descriptorVersion⟩

namespace MemoryMapHolder
variable {this : MemoryMapHolder} {map : FirmwareMap} {behind : Mem}

theorem Holds.readLe (h : this.Holds map) (hfits : map.size ≤ memoryMapBufferSize)
    (hin : a + n ≤ map.size) :
    readLe (this.memory behind) a n = Wasabi.readLe (listMem map.bytes) a n := by
  refine readLe_congr fun b _ hb => ?_
  rw [FirmwareMap.size] at hfits hin
  have hlen : b < this.bytes.length := by
    rw [MemoryMapHolder.bytes, Vector.length_toList]
    omega
  rw [memory, if_pos (by omega), listMem, listMem, List.getD_eq_getElem _ _ hlen,
    List.getD_eq_getElem _ _ (by omega)]
  exact h.bytes b (by omega) (by omega)

theorem Holds.descriptor_eq {d : FirmwareDescriptor} (h : this.Holds map)
    (hfits : map.size ≤ memoryMapBufferSize) (hd : map.bytes = pre ++ d.bytes ++ post) :
    this.descriptor behind pre.length = d.toEfiMemoryDescriptor := by
  have hsize : map.size = pre.length + (40 + d.rest.length) + post.length := by
    rw [FirmwareMap.size, hd, List.length_append, List.length_append, d.length_bytes]
  have hcode : Wasabi.readLe (listMem map.bytes) pre.length 4 = d.memoryType.code := by
    refine readLe_field pre (leBytes 4 d.padding.toNat ++ leBytes 8 d.physicalStart ++
      leBytes 8 d.virtualStart.toNat ++ leBytes 8 d.numberOfPages ++
      leBytes 8 d.efiAttribute.toNat ++ d.rest ++ post) ?_ rfl (EfiMemoryType.code_lt d.encodes)
    simp [hd, FirmwareDescriptor.bytes]
  have hstart : Wasabi.readLe (listMem map.bytes) (pre.length + 8) 8 = d.physicalStart := by
    refine readLe_field (pre ++ leBytes 4 d.memoryType.code ++ leBytes 4 d.padding.toNat)
      (leBytes 8 d.virtualStart.toNat ++ leBytes 8 d.numberOfPages ++
        leBytes 8 d.efiAttribute.toNat ++ d.rest ++ post) ?_ ?_ d.start_lt
    · simp [hd, FirmwareDescriptor.bytes]
    · simp
  have hpages : Wasabi.readLe (listMem map.bytes) (pre.length + 24) 8 = d.numberOfPages := by
    refine readLe_field (pre ++ leBytes 4 d.memoryType.code ++ leBytes 4 d.padding.toNat ++
        leBytes 8 d.physicalStart ++ leBytes 8 d.virtualStart.toNat)
      (leBytes 8 d.efiAttribute.toNat ++ d.rest ++ post) ?_ ?_ d.pages_lt
    · simp [hd, FirmwareDescriptor.bytes]
    · simp
  rw [descriptor, h.readLe hfits (by omega), h.readLe hfits (by omega),
    h.readLe hfits (by omega), hcode, hstart, hpages, EfiMemoryType.ofCode_code d.encodes]

theorem Holds.descriptors {ds : List FirmwareDescriptor}
    (h : this.Holds (.ofDescriptors ds k stride version))
    (hsize : ∀ d ∈ ds, d.bytes.length = stride)
    (hfits : ds.length * stride ≤ memoryMapBufferSize) (hfuel : ds.length < fuel) :
    this.descriptors behind fuel = .ok (ds.map (·.toEfiMemoryDescriptor)) := by
  have hmap : (FirmwareMap.ofDescriptors ds k stride version).size = ds.length * stride :=
    length_records hsize
  have hstride : this.descriptorSize = stride := h.descriptorSize
  have hmapSize : this.memoryMapSize = ds.length * stride := h.size.trans hmap
  have hbuf : memoryMapBufferSize = 32768 := rfl
  cases ds with
  | nil =>
    obtain ⟨fuel, rfl⟩ : ∃ f, fuel = f + 1 := ⟨fuel - 1, by omega⟩
    rw [List.length_nil, Nat.zero_mul] at hmapSize
    rw [MemoryMapHolder.descriptors, drain, iter, next_end (by omega)]
    rfl
  | cons d₀ rest =>
    have hpos : 0 < stride := by
      have hlen := hsize d₀ List.mem_cons_self
      rw [d₀.length_bytes] at hlen
      omega
    have hentries : this.entries = (d₀ :: rest).length := by
      refine eq_of_forall_lt_iff fun i => ?_
      rw [lt_entries (by omega), hstride, hmapSize]
      exact Nat.mul_lt_mul_right hpos
    rw [descriptors_eq (by omega) (by rw [hentries, hstride]; omega) (by omega), hentries]
    refine congrArg Except.ok (List.ext_getElem (by simp) fun i hi hi' => ?_)
    rw [List.length_map, List.length_range] at hi
    obtain ⟨pre, post, hd, hpre⟩ := records_split hsize hi
    have hread := @Holds.descriptor_eq _ _ behind _ _ _ h (by omega) hd
    rw [hpre] at hread
    rw [List.getElem_map, List.getElem_map, List.getElem_range, hstride]
    exact hread

/-- Over any bytes a loop over the map gets to the end exactly if the offset moves on without
overflow, and what it sees are the descriptors at the multiples of the descriptor size; where the
firmware has laid out descriptors, with or without a type that has a name, it sees these. -/
theorem memory_map_loop_exact (this : MemoryMapHolder) (behind : Mem) :
    (∀ ds, (∃ fuel, this.descriptors behind fuel = .ok ds) ↔ this.Terminates ∧
      ds = (List.range this.entries).map fun k =>
        this.descriptor behind (k * this.descriptorSize)) ∧
    ∀ (ds : List FirmwareDescriptor) key version,
      this.Holds (.ofDescriptors ds key this.descriptorSize version) →
      (∀ d ∈ ds, d.bytes.length = this.descriptorSize) →
      ds.length * this.descriptorSize ≤ memoryMapBufferSize →
      ∃ fuel, this.descriptors behind fuel = .ok (ds.map (·.toEfiMemoryDescriptor)) :=
  ⟨fun _ => descriptors_ok_iff, fun ds _ _ h hsize hfits =>
    ⟨ds.length + 1, h.descriptors hsize hfits (Nat.lt_succ_self _)⟩⟩

/-- A page of a type that only the firmware knows, and three free pages. -/
def oemDescriptors : List FirmwareDescriptor :=
  [⟨⟨.unnamed 0x70000000, 0, 1⟩, 0, 0, 15, leBytes 8 0, by rintro _ ⟨⟩; decide, by decide,
      by decide⟩,
    ⟨⟨.conventionalMemory, 4096, 3⟩, 0, 0, 15, leBytes 8 0, nofun, by decide, by decide⟩]

theorem memory_map_loop_exact_oem :
    ∃ fuel, (MemoryMapHolder.new.store (.ofDescriptors oemDescriptors 1 48 1)).descriptors
      (fun _ => 255) fuel = .ok [⟨.unnamed 0x70000000, 0, 1⟩, ⟨.conventionalMemory, 4096, 3⟩] :=
  (memory_map_loop_exact (.store .new (.ofDescriptors oemDescriptors 1 48 1)) fun _ => 255).2
    oemDescriptors 1 1 (MemoryMapHolder.new.store_holds _) (by decide) (by decide)

end MemoryMapHolder

end Wasabi
