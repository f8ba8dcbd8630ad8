import Mathlib.Algebra.BigOperators.Ring.List
import Wasabi.Kernel
import Wasabi.MemoryMap

namespace Wasabi
set_option autoImplicit true

/-- `init_basic_runtime`, with a bound on the rounds of its two loops. -/
def initBasicRuntime (fuel : Nat) (imageHandle : BitVec 64) (firmware : Firmware) (behind m : Mem) :
    Except Fault (BootServices × Heap) :=
  match exitFromEfiBootServices firmware fuel imageHandle ⟨.new, []⟩ with
  | .error e _ => throw e
  | .ok () services => do
    let heap ← Heap.initWithMmap ⟨m, none⟩ (← services.memoryMap.descriptors behind fuel)
    return (services, heap)

def addPages (totalMemoryPages : Nat) (e : EfiMemoryDescriptor) : Except Fault Nat :=
  if e.memoryType ≠ .conventionalMemory then return totalMemoryPages
  else checkedAdd totalMemoryPages e.numberOfPages

/-- `init_allocator`, up to the number of MiB that it prints. -/
def initAllocator (fuel : Nat) (behind : Mem) (memoryMap : MemoryMapHolder) :
    Except Fault Nat := do
  let totalMemoryPages ← (← memoryMap.descriptors behind fuel).foldlM addPages 0
  return (← checkedMul totalMemoryPages 4096) / 1024 / 1024

namespace EfiMemoryDescriptor
variable {map : List EfiMemoryDescriptor}

def conventional (map : List EfiMemoryDescriptor) : List EfiMemoryDescriptor :=
  map.filter (·.memoryType = .conventionalMemory)

def totalMemory (map : List EfiMemoryDescriptor) : Nat :=
  ((conventional map).map (·.numberOfPages * 4096)).sum

theorem ValidMap.totalMemory_lt (hv : ValidMap map) : totalMemory map < 2 ^ 64 := by
  have hle : totalMemory map ≤ 2 ^ 64 - 1 := by
    refine sum_len_le physicalStart _ hv.disjoint fun d hd => ?_
    obtain ⟨hd, hc⟩ := List.mem_filter.1 hd
    have hend := hv.bounded d hd (of_decide_eq_true hc)
    unfold physicalEnd at hend
    omega
  omega

theorem totalMemory_eq (map : List EfiMemoryDescriptor) :
    totalMemory map = ((conventional map).map (·.numberOfPages)).sum * 4096 := by
  rw [totalMemory, ← List.sum_map_mul_right]

theorem foldlM_addPages (h : total + ((conventional map).map (·.numberOfPages)).sum < 2 ^ 64) :
    map.foldlM addPages total =
      .ok (total + ((conventional map).map (·.numberOfPages)).sum) := by
  induction map generalizing total with
  | nil => rfl
  | cons d map ih =>
    rw [List.foldlM_cons, addPages]
    by_cases hc : d.memoryType = .conventionalMemory
    · have hcons : conventional (d :: map) = d :: conventional map :=
        List.filter_cons_of_pos (decide_eq_true hc)
      rw [hcons, List.map_cons, List.sum_cons] at h ⊢
      rw [if_neg (not_not.2 hc), checkedAdd_ok (by omega), ok_bind, ih (by omega), Nat.add_assoc]
    · have hcons : conventional (d :: map) = conventional map :=
        List.filter_cons_of_neg (by simpa using hc)
      rw [hcons] at h ⊢
      rw [if_pos hc]
      exact ih h

end EfiMemoryDescriptor

/-- Counting the memory of a valid map overflows nowhere. -/
theorem initAllocator_eq {memoryMap : MemoryMapHolder} (hv : EfiMemoryDescriptor.ValidMap map)
    (hmap : memoryMap.descriptors behind fuel = .ok map) :
    initAllocator fuel behind memoryMap = .ok (EfiMemoryDescriptor.totalMemory map / 2 ^ 20) := by
  have hlt := hv.totalMemory_lt
  rw [EfiMemoryDescriptor.totalMemory_eq] at hlt ⊢
  rw [initAllocator, hmap, ok_bind, EfiMemoryDescriptor.foldlM_addPages (by omega), ok_bind,
    Nat.zero_add, checkedMul_ok hlt, ok_bind, Nat.div_div_eq_div_mul]
  rfl

/-- The firmware of a machine on which the kernel boots: it accepts the first key, and the first map
lays out the descriptors `ds`. -/
structure Firmware.Boots (firmware : Firmware) (imageHandle : BitVec 64)
    (ds : List FirmwareDescriptor) : Prop where
  accepted : firmware.Accepts imageHandle 0
  fits : (firmware.map 0).size ≤ memoryMapBufferSize
  laid : ∃ key stride version, firmware.map 0 = .ofDescriptors ds key stride version ∧
    ∀ d ∈ ds, d.bytes.length = stride
  valid : EfiMemoryDescriptor.ValidMap (ds.map (·.toEfiMemoryDescriptor))
  below : ∀ d ∈ ds, d.Mappable → d.physicalEnd ≤ 2 ^ 47

theorem Firmware.Boots.exits {firmware : Firmware} {imageHandle : BitVec 64}
    {ds : List FirmwareDescriptor} (h : firmware.Boots imageHandle ds) (hfuel : ds.length < fuel)
    (behind : Mem) :
    ∃ services, exitFromEfiBootServices firmware fuel imageHandle ⟨.new, []⟩ = .ok () services ∧
      services.exits = [((firmware.map 0).key, .success)] ∧
      services.memoryMap.descriptors behind fuel = .ok (ds.map (·.toEfiMemoryDescriptor)) := by
  have hok : exitFromEfiBootServices firmware fuel imageHandle ⟨.new, []⟩ = _ :=
    exit_eq h.fits (Nat.zero_lt_of_lt hfuel)
  have haccepted := h.accepted
  rw [Accepts] at haccepted
  rw [haccepted] at hok
  refine ⟨_, hok, rfl, ?_⟩
  obtain ⟨key, stride, version, hmap, hsize⟩ := h.laid
  have hfits := h.fits
  have hholds := MemoryMapHolder.new.store_holds (firmware.map 0)
  rw [hmap] at hfits
  rw [FirmwareMap.size, FirmwareMap.ofDescriptors, length_records hsize] at hfits
  dsimp only
  generalize MemoryMapHolder.new.store (firmware.map 0) = memoryMap at hholds
  rw [hmap] at hholds
  exact hholds.descriptors hsize hfits hfuel

/-- What the kernel has after `init_paging`, in any state that it runs to. -/
structure KernelSound (map : List EfiMemoryDescriptor) (k : Kernel) : Prop where
  identity : IdentityMap map k
  heap : ∃ (ts : List Nat) (cs : List (Nat × Header)), HeapSafe map
    ⟨k.machine.toHeap, k.machine.heap.boxes ++ ts.map tableBlock⟩ cs

theorem KernelInv.sound (h : KernelInv map k)
    (hb : ∀ d ∈ map, d.Mappable → d.physicalEnd ≤ 2 ^ 47) : KernelSound map k := by
  obtain ⟨ts, hts⟩ := h.tables
  obtain ⟨cs, hinv, _⟩ := hts.owns.inv
  exact ⟨h.identityMap hb, ts, cs, HeapInv.safe (s := ⟨_, _⟩) hinv⟩

/-- From the firmware to the running kernel: leaving boot services and setting up the heap succeed,
the memory is counted without overflow, `init_paging` fails only where the heap has no room for the
tables, and from then on the kernel keeps its heap and the identity map of the memory that the
firmware described. -/
theorem kernel_boots (h : Firmware.Boots firmware imageHandle ds) (hfuel : ds.length < fuel)
    (behind m : Mem) :
    ∃ services heap,
      initBasicRuntime fuel imageHandle firmware behind m = .ok (services, heap) ∧
      services.exits = [((firmware.map 0).key, .success)] ∧
      services.memoryMap.descriptors behind fuel = .ok (ds.map (·.toEfiMemoryDescriptor)) ∧
      Heap.initWithMmap ⟨m, none⟩ (ds.map (·.toEfiMemoryDescriptor)) = .ok heap ∧
      initAllocator fuel behind services.memoryMap =
        .ok (EfiMemoryDescriptor.totalMemory (ds.map (·.toEfiMemoryDescriptor)) / 2 ^ 20) ∧
      ∀ r, Runs HeapStep ⟨heap, []⟩ r →
        Ends (initPaging (ds.map (·.toEfiMemoryDescriptor))) (.booted r)
          (fun cr3 machine => ∀ k, Runs KernelStep ⟨machine, cr3, []⟩ k →
            KernelSound (ds.map (·.toEfiMemoryDescriptor)) k)
          fun e s => e = .outOfMemory ∧ tableNew s = none ∧ LacksTables (.booted r) := by
  obtain ⟨services, hexit, hexits, hmap⟩ := h.exits hfuel behind
  obtain ⟨heap, hinit, hruns⟩ := heapInv_of_runs h.valid m
  have hb : ∀ d ∈ ds.map (·.toEfiMemoryDescriptor), d.Mappable → d.physicalEnd ≤ 2 ^ 47 := by
    intro d hd
    obtain ⟨f, hf, rfl⟩ := List.mem_map.1 hd
    exact h.below f hf
  refine ⟨services, heap, ?_, hexits, hmap, hinit, initAllocator_eq h.valid hmap, fun r hr => ?_⟩
  · rw [initBasicRuntime, hexit]
    dsimp only
    rw [hmap, ok_bind, hinit]
    rfl
  · obtain ⟨cs, hinv⟩ := hruns r hr
    refine (initPaging_ends hb (OwnsPages.booted hinv)).mono (fun cr3 machine hok k hk => ?_)
      fun e s he => ⟨he.1, he.2.1, cs, hinv.list, he.2.2⟩
    exact (hk.invariant (KernelInv _) (fun k k' h hs => h.step hb hs)
      (KernelInv.start hok.1 hok.2)).sound hb

/-- The descriptors of a machine with 4 TiB of memory above a page of loader code. -/
def largeDescriptors : List FirmwareDescriptor :=
  [⟨⟨.loaderCode, 0, 1⟩, 0, 0, 15, leBytes 8 0, nofun, by decide, by decide⟩,
    ⟨⟨.conventionalMemory, 4096, 2 ^ 30⟩, 0, 0, 15, leBytes 8 0, nofun, by decide, by decide⟩]

def steady : Firmware where
  map _ := .ofDescriptors largeDescriptors 1 48 1
  keyAtExit _ := 1
  exitBootServices _ _ key := if key = 1 then .success else .invalidParameter
  stale k imageHandle key h := by
    rw [if_neg h]
    decide

theorem steady_boots : steady.Boots 0 largeDescriptors where
  accepted := rfl
  fits := by decide
  laid := ⟨1, 48, 1, rfl, by decide⟩
  valid := largeMap_valid
  below := by decide

theorem kernel_boots_steady : ∃ services heap cr3 machine,
    initBasicRuntime 3 0 steady (fun _ => 0) (fun _ => 0) = .ok (services, heap) ∧
      initPaging largeMap (.booted ⟨heap, []⟩) = .ok cr3 machine ∧
      KernelSound largeMap ⟨machine, cr3, []⟩ := by
  obtain ⟨services, heap, hbasic, _, _, hinit, _, hpaging⟩ :=
    kernel_boots steady_boots (by decide : largeDescriptors.length < 3) (fun _ => 0) fun _ => 0
  have hheap : largeHeap = heap := Except.ok.inj (largeHeap_eq.symm.trans hinit)
  have hinv := largeHeap_inv
  rw [hheap] at hinv
  have hb : ∀ d ∈ largeMap, d.Mappable → d.physicalEnd ≤ 2 ^ 47 := by decide
  have hends := initPaging_ends hb (OwnsPages.booted (r := ⟨heap, []⟩) hinv)
  obtain ⟨cr3, machine, hok, _⟩ := hends.returns fun e s hf =>
    absurd hf.2.2 (Nat.not_le_of_lt capacity_largeHeap)
  refine ⟨services, heap, cr3, machine, hbasic, hok, ?_⟩
  exact (hpaging ⟨heap, []⟩ .refl).of_ok hok _ .refl

end Wasabi
