import Wasabi.Usize

namespace Wasabi
set_option autoImplicit true

/-- The types that the source names, and any other code that firmware may leave in a descriptor: it
compares unequal to all of them. -/
inductive EfiMemoryType where
  | reserved
  | loaderCode
  | loaderData
  | bootServicesCode
  | bootServicesData
  | runtimeServicesCode
  | runtimeServicesData
  | conventionalMemory
  | unusableMemory
  | acpiReclaimMemory
  | acpiMemoryNvs
  | memoryMappedIo
  | memoryMappedIoPortSpace
  | palCode
  | persistentMemory
  | unnamed (code : Nat)
  deriving DecidableEq, Repr

structure EfiMemoryDescriptor where
  memoryType : EfiMemoryType
  physicalStart : Nat
  numberOfPages : Nat
  deriving DecidableEq, Repr

namespace EfiMemoryDescriptor

def physicalEnd (d : EfiMemoryDescriptor) : Nat := d.physicalStart + d.numberOfPages * 4096

/-- The parts of a UEFI memory map that the allocator relies on. -/
structure ValidMap (map : List EfiMemoryDescriptor) : Prop where
  aligned : ∀ d ∈ map, d.memoryType = .conventionalMemory → d.physicalStart % 4096 = 0
  bounded : ∀ d ∈ map, d.memoryType = .conventionalMemory → d.physicalEnd < 2 ^ 64
  disjoint : (map.filter (·.memoryType = .conventionalMemory)).Pairwise fun d e =>
    d.physicalEnd ≤ e.physicalStart ∨ e.physicalEnd ≤ d.physicalStart

end EfiMemoryDescriptor

end Wasabi
