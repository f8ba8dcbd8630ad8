import Wasabi.Interrupts
import Wasabi.Records

namespace Wasabi
set_option autoImplicit true

def kernelCs : BitVec 16 := 1 <<< 3

def kernelDs : BitVec 16 := 2 <<< 3

def tss64Sel : BitVec 16 := 3 <<< 3

def IdtAttr.bits : IdtAttr → Nat
  | .notPresent => 0
  | .intGateDpl0 => 0b10001110
  | .intGateDpl3 => 0b11101110

/-- The structure as `IdtDescriptor::new` fills it, when the handlers are at `addr`. -/
def IdtDescriptor.bytes (addr : HandlerFn → BitVec 64) (d : IdtDescriptor) : List UInt8 :=
  leBytes 2 (addr d.f).toNat ++ leBytes 2 d.segmentSelector.toNat ++ leBytes 1 d.istIndex.toNat ++
    leBytes 1 d.attr.bits ++ leBytes 2 ((addr d.f).toNat >>> 16) ++
    leBytes 4 ((addr d.f).toNat >>> 32) ++ leBytes 4 0

def Idt.bytes (addr : HandlerFn → BitVec 64) (idt : Idt) : List UInt8 :=
  (List.ofFn idt.entries).flatMap (·.bytes addr)

/-- What the processor makes of the gate of a vector. -/
structure Gate where
  offset : Nat
  selector : Nat
  ist : Nat
  type : Nat
  dpl : Nat
  present : Bool
  deriving DecidableEq, Repr

def Gate.load (m : Mem) (base vector : Nat) : Gate where
  offset := readLe m (base + vector * 16) 2 + 2 ^ 16 * readLe m (base + (vector * 16 + 6)) 2 +
    2 ^ 32 * readLe m (base + (vector * 16 + 8)) 4
  selector := readLe m (base + (vector * 16 + 2)) 2
  ist := readLe m (base + (vector * 16 + 4)) 1 % 8
  type := readLe m (base + (vector * 16 + 5)) 1 % 16
  dpl := readLe m (base + (vector * 16 + 5)) 1 / 32 % 4
  present := readLe m (base + (vector * 16 + 5)) 1 / 128 = 1

def IdtDescriptor.gate (addr : HandlerFn → BitVec 64) (d : IdtDescriptor) : Gate where
  offset := (addr d.f).toNat
  selector := d.segmentSelector.toNat
  ist := d.istIndex.toNat % 8
  type := d.attr.bits % 16
  dpl := d.attr.bits / 32 % 4
  present := d.attr.bits / 128 = 1

theorem IdtAttr.bits_lt (attr : IdtAttr) : attr.bits < 256 := by cases attr <;> decide

theorem IdtDescriptor.length_bytes (addr : HandlerFn → BitVec 64) (d : IdtDescriptor) :
    (d.bytes addr).length = 16 := by
  simp only [bytes, List.length_append, length_leBytes]

section
variable (addr : HandlerFn → BitVec 64) (d : IdtDescriptor)

theorem IdtDescriptor.offset_low :
    readLe (listMem (d.bytes addr)) 0 2 = (addr d.f).toNat % 2 ^ 16 :=
  readLe_field_mod [] (leBytes 2 d.segmentSelector.toNat ++ leBytes 1 d.istIndex.toNat ++
    leBytes 1 d.attr.bits ++ leBytes 2 ((addr d.f).toNat >>> 16) ++
    leBytes 4 ((addr d.f).toNat >>> 32) ++ leBytes 4 0) (by simp [bytes]) rfl

theorem IdtDescriptor.selector_read :
    readLe (listMem (d.bytes addr)) 2 2 = d.segmentSelector.toNat :=
  readLe_field (leBytes 2 (addr d.f).toNat) (leBytes 1 d.istIndex.toNat ++
    leBytes 1 d.attr.bits ++ leBytes 2 ((addr d.f).toNat >>> 16) ++
    leBytes 4 ((addr d.f).toNat >>> 32) ++ leBytes 4 0) (by simp [bytes]) rfl d.segmentSelector.isLt

theorem IdtDescriptor.ist_read : readLe (listMem (d.bytes addr)) 4 1 = d.istIndex.toNat :=
  readLe_field (leBytes 2 (addr d.f).toNat ++ leBytes 2 d.segmentSelector.toNat)
    (leBytes 1 d.attr.bits ++ leBytes 2 ((addr d.f).toNat >>> 16) ++
      leBytes 4 ((addr d.f).toNat >>> 32) ++ leBytes 4 0) (by simp [bytes]) rfl d.istIndex.isLt

theorem IdtDescriptor.attr_read : readLe (listMem (d.bytes addr)) 5 1 = d.attr.bits :=
  readLe_field (leBytes 2 (addr d.f).toNat ++ leBytes 2 d.segmentSelector.toNat ++
      leBytes 1 d.istIndex.toNat)
    (leBytes 2 ((addr d.f).toNat >>> 16) ++ leBytes 4 ((addr d.f).toNat >>> 32) ++ leBytes 4 0)
    (by simp [bytes]) rfl d.attr.bits_lt

theorem IdtDescriptor.offset_mid :
    readLe (listMem (d.bytes addr)) 6 2 = (addr d.f).toNat >>> 16 % 2 ^ 16 :=
  readLe_field_mod (leBytes 2 (addr d.f).toNat ++ leBytes 2 d.segmentSelector.toNat ++
      leBytes 1 d.istIndex.toNat ++ leBytes 1 d.attr.bits)
    (leBytes 4 ((addr d.f).toNat >>> 32) ++ leBytes 4 0) (by simp [bytes]) rfl

theorem IdtDescriptor.offset_high :
    readLe (listMem (d.bytes addr)) 8 4 = (addr d.f).toNat >>> 32 :=
  readLe_field (leBytes 2 (addr d.f).toNat ++ leBytes 2 d.segmentSelector.toNat ++
      leBytes 1 d.istIndex.toNat ++ leBytes 1 d.attr.bits ++ leBytes 2 ((addr d.f).toNat >>> 16))
    (leBytes 4 0) (by simp [bytes]) rfl (by have := (addr d.f).isLt; omega)

end

theorem Gate.load_idt (addr : HandlerFn → BitVec 64) (idt : Idt)
    (h : ∀ a n, a + n ≤ 4096 → readLe m (base + a) n = readLe (listMem (idt.bytes addr)) a n)
    (vector : Fin 256) : Gate.load m base vector = (idt.entries vector).gate addr := by
  have hentry : ∀ a k, a + k ≤ 16 → readLe m (base + (vector * 16 + a)) k =
      readLe (listMem ((idt.entries vector).bytes addr)) a k := by
    intro a k hak
    have hlen : ∀ d ∈ List.ofFn idt.entries, (d.bytes addr).length = 16 :=
      fun d _ => d.length_bytes addr
    have hread := readLe_record hlen (i := vector) (by rw [List.length_ofFn]; exact vector.isLt) hak
    rw [List.getElem_ofFn] at hread
    have hlt := vector.isLt
    exact (h _ k (by omega)).trans hread
  have hlow := (hentry 0 2 (by decide)).trans (IdtDescriptor.offset_low addr _)
  rw [Nat.add_zero] at hlow
  have hsplit : ∀ v < 2 ^ 64,
      v % 2 ^ 16 + 2 ^ 16 * (v >>> 16 % 2 ^ 16) + 2 ^ 32 * (v >>> 32) = v := by
    intro v hv
    omega
  rw [Gate.load, hlow, hentry 2 2 (by decide), hentry 4 1 (by decide), hentry 5 1 (by decide),
    hentry 6 2 (by decide), hentry 8 4 (by decide), IdtDescriptor.selector_read,
    IdtDescriptor.ist_read, IdtDescriptor.attr_read, IdtDescriptor.offset_mid,
    IdtDescriptor.offset_high, hsplit _ (addr _).isLt]
  rfl

namespace TaskStateSegment64Inner

/-- The structure as `TaskStateSegment64::new` fills it. -/
def bytes (rsp0 : Nat) (ist : List Nat) : List UInt8 :=
  leBytes 4 0 ++ (leBytes 8 rsp0 ++ leBytes 8 0 ++ leBytes 8 0) ++ ist.flatMap (leBytes 8) ++
    List.replicate 10 0 ++ leBytes 2 0

theorem length_bytes (rsp0 : Nat) (hist : ist.length = 8) : (bytes rsp0 ist).length = 104 := by
  have hwords := length_records fun (v : Nat) (_ : v ∈ ist) => length_leBytes 8 v
  simp [bytes, hwords, hist]

theorem rsp0_read (ist : List Nat) (h : rsp0 < 2 ^ 64) :
    readLe (listMem (bytes rsp0 ist)) 4 8 = rsp0 :=
  readLe_field (leBytes 4 0) (leBytes 8 0 ++ leBytes 8 0 ++ ist.flatMap (leBytes 8) ++
    List.replicate 10 0 ++ leBytes 2 0) (by simp [bytes]) rfl h

theorem ist_read (rsp0 : Nat) {ist : List Nat} (hi : i < ist.length) (h : ist[i] < 2 ^ 64) :
    readLe (listMem (bytes rsp0 ist)) (28 + i * 8) 8 = ist[i] := by
  have hlen : ∀ v ∈ ist, (leBytes 8 v).length = 8 := fun v _ => length_leBytes 8 v
  obtain ⟨pre, post, hist, hpre⟩ := records_split hlen hi
  refine readLe_field (leBytes 4 0 ++ (leBytes 8 rsp0 ++ leBytes 8 0 ++ leBytes 8 0) ++ pre)
    (post ++ List.replicate 10 0 ++ leBytes 2 0) ?_ ?_ h
  · rw [bytes, hist]
    simp
  · rw [List.length_append, hpre]
    rfl

end TaskStateSegment64Inner

namespace GdtAttr

def kernelCode : Nat := 0b11 <<< 43 ||| 1 <<< 47 ||| 1 <<< 53 ||| 1 <<< 41

def kernelData : Nat := 0b10 <<< 43 ||| 1 <<< 47 ||| 1 <<< 41

end GdtAttr

namespace TaskStateSegment64Descriptor

def bytes (attr baseAddr : Nat) : List UInt8 :=
  leBytes 2 104 ++ leBytes 2 baseAddr ++ leBytes 1 (baseAddr >>> 16) ++ leBytes 2 attr ++
    leBytes 1 (baseAddr >>> 24) ++ leBytes 4 (baseAddr >>> 32) ++ leBytes 4 0

/-- The attributes of `new`. -/
def available : Nat := 0b1000000010001001

/-- The same after `ltr`. -/
def busy : Nat := 0b1000000010001011

end TaskStateSegment64Descriptor

namespace Gdt

def bytes (code data task tss : Nat) : List UInt8 :=
  leBytes 8 0 ++ leBytes 8 code ++ leBytes 8 data ++ TaskStateSegment64Descriptor.bytes task tss

def default (tss : Nat) : List UInt8 :=
  bytes GdtAttr.kernelCode GdtAttr.kernelData TaskStateSegment64Descriptor.available tss

/-- The segments have been loaded: code and data are accessed, and the task state is busy. -/
def loaded (tss : Nat) : List UInt8 :=
  bytes (GdtAttr.kernelCode ||| 1 <<< 40) (GdtAttr.kernelData ||| 1 <<< 40)
    TaskStateSegment64Descriptor.busy tss

/-- The processor sets a bit in the type of the descriptor that a selector points to. -/
def mark (m : Mem) (gdt : Nat) (selector : BitVec 16) (bit : Nat) : Mem :=
  let type := gdt + (selector.toNat / 8 * 8 + 5)
  writeLe m type 1 (readLe m type 1 ||| bit)

/-- What `ltr` and the loads of the segment registers write. -/
def load (m : Mem) (gdt : Nat) : Mem :=
  mark (mark (mark m gdt tss64Sel 0b10) gdt kernelCs 0b1) gdt kernelDs 0b1

end Gdt

def segment (m : Mem) (gdt : Nat) (selector : BitVec 16) : Nat :=
  readLe m (gdt + selector.toNat / 8 * 8) 8

def IsKernelCode (descriptor : Nat) : Prop :=
  descriptor.testBit 47 ∧ descriptor.testBit 44 ∧ descriptor.testBit 43 ∧ descriptor.testBit 53 ∧
    ¬descriptor.testBit 54 ∧ descriptor >>> 45 % 4 = 0

instance (descriptor : Nat) : Decidable (IsKernelCode descriptor) :=
  inferInstanceAs (Decidable (_ ∧ _))

def IsKernelData (descriptor : Nat) : Prop :=
  descriptor.testBit 47 ∧ descriptor.testBit 44 ∧ ¬descriptor.testBit 43 ∧ descriptor.testBit 41 ∧
    descriptor >>> 45 % 4 = 0

instance (descriptor : Nat) : Decidable (IsKernelData descriptor) :=
  inferInstanceAs (Decidable (_ ∧ _))

def taskBase (m : Mem) (gdt : Nat) : Nat :=
  readLe m (gdt + 26) 2 + 2 ^ 16 * readLe m (gdt + 28) 1 + 2 ^ 24 * readLe m (gdt + 31) 1 +
    2 ^ 32 * readLe m (gdt + 32) 4

/-- The stack that the processor takes for an index of the interrupt stack table. -/
def interruptStack (m : Mem) (gdt : Nat) (i : BitVec 8) : BitVec 64 :=
  BitVec.ofNat 64 (readLe m (taskBase m gdt + (28 + i.toNat * 8)) 8)

/-- The task state segment that the task register points to; it is present and busy, and its limit
covers the stack pointers. -/
structure TaskState (m : Mem) (gdt base : Nat) : Prop where
  base_eq : taskBase m gdt = base
  type : readLe m (gdt + 29) 1 = 0b10001011
  limit : 104 ≤ readLe m (gdt + 24) 2

theorem Gdt.length_bytes (code data task tss : Nat) : (bytes code data task tss).length = 40 := by
  simp [bytes, TaskStateSegment64Descriptor.bytes]

section
variable {gdt tss : Nat}

theorem Gdt.kernelCode_read (h : ∀ a n, a + n ≤ 40 →
    readLe m (gdt + a) n = readLe (listMem (loaded tss)) a n) :
    IsKernelCode (segment m gdt kernelCs) := by
  have hread : readLe (listMem (loaded tss)) 8 8 = GdtAttr.kernelCode ||| 1 <<< 40 :=
    readLe_field (leBytes 8 0) (leBytes 8 (GdtAttr.kernelData ||| 1 <<< 40) ++
      TaskStateSegment64Descriptor.bytes TaskStateSegment64Descriptor.busy tss)
      (by simp [loaded, bytes]) rfl (by decide)
  have hsegment : segment m gdt kernelCs = GdtAttr.kernelCode ||| 1 <<< 40 :=
    (h 8 8 (by decide)).trans hread
  rw [hsegment]
  decide

theorem Gdt.kernelData_read (h : ∀ a n, a + n ≤ 40 →
    readLe m (gdt + a) n = readLe (listMem (loaded tss)) a n) :
    IsKernelData (segment m gdt kernelDs) := by
  have hread : readLe (listMem (loaded tss)) 16 8 = GdtAttr.kernelData ||| 1 <<< 40 :=
    readLe_field (leBytes 8 0 ++ leBytes 8 (GdtAttr.kernelCode ||| 1 <<< 40))
      (TaskStateSegment64Descriptor.bytes TaskStateSegment64Descriptor.busy tss)
      (by simp [loaded, bytes]) rfl (by decide)
  have hsegment : segment m gdt kernelDs = GdtAttr.kernelData ||| 1 <<< 40 :=
    (h 16 8 (by decide)).trans hread
  rw [hsegment]
  decide

theorem Gdt.taskState_read (hlt : tss < 2 ^ 64) (h : ∀ a n, a + n ≤ 40 →
    readLe m (gdt + a) n = readLe (listMem (loaded tss)) a n) : TaskState m gdt tss := by
  let segments := leBytes 8 0 ++ leBytes 8 (GdtAttr.kernelCode ||| 1 <<< 40) ++
    leBytes 8 (GdtAttr.kernelData ||| 1 <<< 40)
  have hlimit : readLe (listMem (loaded tss)) 24 2 = 104 :=
    readLe_field segments _ rfl rfl (by decide)
  have hlow : readLe (listMem (loaded tss)) 26 2 = tss % 2 ^ 16 :=
    readLe_field_mod (segments ++ leBytes 2 104) (leBytes 1 (tss >>> 16) ++
      leBytes 2 TaskStateSegment64Descriptor.busy ++ leBytes 1 (tss >>> 24) ++
      leBytes 4 (tss >>> 32) ++ leBytes 4 0)
      (by simp [loaded, Gdt.bytes, TaskStateSegment64Descriptor.bytes, segments]) rfl
  have hmidLow : readLe (listMem (loaded tss)) 28 1 = tss >>> 16 % 2 ^ 8 :=
    readLe_field_mod (segments ++ leBytes 2 104 ++ leBytes 2 tss)
      (leBytes 2 TaskStateSegment64Descriptor.busy ++ leBytes 1 (tss >>> 24) ++
        leBytes 4 (tss >>> 32) ++ leBytes 4 0)
      (by simp [loaded, Gdt.bytes, TaskStateSegment64Descriptor.bytes, segments]) rfl
  have hattr : leBytes 2 TaskStateSegment64Descriptor.busy =
      leBytes 1 0b10001011 ++ leBytes 1 0b10000000 := rfl
  have htype : readLe (listMem (loaded tss)) 29 1 = 0b10001011 := by
    refine readLe_field (segments ++ leBytes 2 104 ++ leBytes 2 tss ++ leBytes 1 (tss >>> 16))
      (leBytes 1 0b10000000 ++ leBytes 1 (tss >>> 24) ++ leBytes 4 (tss >>> 32) ++ leBytes 4 0)
      ?_ rfl (by decide)
    rw [loaded, Gdt.bytes, TaskStateSegment64Descriptor.bytes, hattr]
    simp only [segments, List.append_assoc]
  have hmidHigh : readLe (listMem (loaded tss)) 31 1 = tss >>> 24 % 2 ^ 8 :=
    readLe_field_mod (segments ++ leBytes 2 104 ++ leBytes 2 tss ++ leBytes 1 (tss >>> 16) ++
      leBytes 2 TaskStateSegment64Descriptor.busy) (leBytes 4 (tss >>> 32) ++ leBytes 4 0)
      (by simp [loaded, Gdt.bytes, TaskStateSegment64Descriptor.bytes, segments]) rfl
  have hhigh : readLe (listMem (loaded tss)) 32 4 = tss >>> 32 % 2 ^ 32 :=
    readLe_field_mod (segments ++ leBytes 2 104 ++ leBytes 2 tss ++ leBytes 1 (tss >>> 16) ++
      leBytes 2 TaskStateSegment64Descriptor.busy ++ leBytes 1 (tss >>> 24)) (leBytes 4 0)
      (by simp [loaded, Gdt.bytes, TaskStateSegment64Descriptor.bytes, segments]) rfl
  constructor
  case base_eq =>
    rw [taskBase, h 26 2 (by decide), h 28 1 (by decide), h 31 1 (by decide), h 32 4 (by decide),
      hlow, hmidLow, hmidHigh, hhigh]
    omega
  case type => rw [h 29 1 (by decide), htype]
  case limit => rw [h 24 2 (by decide), hlimit]

end

end Wasabi
