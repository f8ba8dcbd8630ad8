import Wasabi.Bytes
import Wasabi.Outcome
import Wasabi.Usize

namespace Wasabi
set_option autoImplicit true

def pageSize : Nat := 4096

def attrMask : Nat := 0xfff

inductive PageAttr where
  | notPresent
  | readWriteKernel
  | readWriteIo
  deriving DecidableEq, Repr

namespace PageAttr

def present : Nat := 1 <<< 0

def writable : Nat := 1 <<< 1

def writeThrough : Nat := 1 <<< 3

def cacheDisable : Nat := 1 <<< 4

def bits : PageAttr → Nat
  | notPresent => 0
  | readWriteKernel => present ||| writable
  | readWriteIo => present ||| writable ||| writeThrough ||| cacheDisable

end PageAttr

/-- Physical memory together with the state of the allocator behind `Box::new`. -/
structure Machine (α : Type) where
  mem : Mem
  heap : α

/-- `Box::new` of a zeroed table. There is no result when the allocation fails, which aborts. -/
abbrev BoxNew (α : Type) := Machine α → Option (Nat × Machine α)

/-- Code that runs on a machine; a failing call keeps the stores it has made. -/
abbrev Run (α β : Type) := EStateM Fault (Machine α) β

namespace Entry

def readValue (m : Mem) (e : Nat) : Nat := readLe m e 8

def isPresent (m : Mem) (e : Nat) : Bool := readValue m e &&& 1 <<< 0 != 0

def tableMut (e : Nat) : Run α Nat := do
  let s ← get
  if isPresent s.mem e then
    return readValue s.mem e &&& complement attrMask
  else throw (.err "Page Not Found")

def setPage (e phys : Nat) (attr : PageAttr) : Run α Unit := do
  if phys &&& attrMask ≠ 0 then
    throw (.err "Physical address must be aligned to page size")
  else modify fun s => { s with mem := writeLe s.mem e 8 (phys ||| attr.bits) }

variable (boxNew : BoxNew α)

def populate (e : Nat) : Run α Unit := do
  let s ← get
  if isPresent s.mem e then
    throw (.err "Page is already populated")
  else match boxNew s with
    | none => throw .outOfMemory
    | some (table, s) =>
      set { s with mem := writeLe s.mem e 8 (table ||| PageAttr.readWriteKernel.bits) }

def ensurePopulated (e : Nat) : Run α Unit := do
  let s ← get
  if isPresent s.mem e then
    return ()
  else populate boxNew e

end Entry

namespace Table

def indexShift (level : Nat) : Nat := (level - 1) * 9 + 12

def calcIndex (level addr : Nat) : Nat := addr >>> indexShift level &&& 0b1_1111_1111

def entry (table index : Nat) : Nat := table + 8 * index

end Table

namespace PML4

open Entry Table

variable (boxNew : BoxNew α)

/-- The innermost loop body: map one page through the entry `pte`. -/
def mapPage (virtStart phys : Nat) (attr : PageAttr) (pte addr : Nat) : Run α Nat := do
  let sum ← MonadExcept.ofExcept (checkedAdd phys addr)
  let physAddr ← MonadExcept.ofExcept (checkedSub sum virtStart)
  setPage pte physAddr attr
  return (addr + pageSize) % 2 ^ 64

/-- The loop over the entries of the table at `table` that `addr` goes through. -/
def tableLoop (virtEnd level table : Nat) (body : Nat → Nat → Run α Nat) (addr : Nat) :
    Run α Nat :=
  loopFrom .diverged (fun addr => do
    let index := calcIndex level addr
    let addr ← body (entry table index) addr
    if index + 1 ≥ 1 <<< 9 ∨ addr ≥ virtEnd then
      return .inr addr
    else return .inl addr) (1 <<< 9) addr

/-- The nested loops of `create_mapping`, from a table of level `n + 1` down to the pages. -/
def mapTable (virtStart virtEnd phys : Nat) (attr : PageAttr) : Nat → Nat → Nat → Run α Nat
  | 0, table, addr => tableLoop virtEnd 1 table (mapPage virtStart phys attr) addr
  | n + 1, table, addr => tableLoop virtEnd (n + 2) table (fun entry addr => do
      ensurePopulated boxNew entry
      let table ← tableMut entry
      mapTable virtStart virtEnd phys attr n table addr) addr

def createMapping (table virtStart virtEnd phys : Nat) (attr : PageAttr) : Run α Unit := do
  let _ ← mapTable boxNew virtStart virtEnd phys attr 3 table virtStart

end PML4

/-- The table that an entry points to, as the hardware follows it. -/
def nextTable (m : Mem) (table index : Nat) : Option Nat :=
  if Entry.isPresent m (Table.entry table index) then
    some (Entry.readValue m (Table.entry table index) &&& complement attrMask)
  else none

/-- The walk of the four levels: the leaf value of an address, when the upper levels are present. -/
def walk (m : Mem) (root v : Nat) : Option Nat := do
  let pdpt ← nextTable m root (Table.calcIndex 4 v)
  let pd ← nextTable m pdpt (Table.calcIndex 3 v)
  let pt ← nextTable m pd (Table.calcIndex 2 v)
  return Entry.readValue m (Table.entry pt (Table.calcIndex 1 v))

/-- The present leaf value of an address; there is none when the address is not mapped. -/
def translate (m : Mem) (root v : Nat) : Option Nat :=
  (walk m root v).filter fun e => e &&& 1 <<< 0 != 0

end Wasabi
