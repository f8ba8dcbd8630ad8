import Wasabi.KeyboardStart
import Wasabi.Records
import Wasabi.StringDescriptor

namespace Wasabi
set_option autoImplicit true

structure UsbDeviceDescriptor where
  descLength : UInt8
  descType : UInt8
  version : UInt16
  deviceClass : UInt8
  deviceSubclass : UInt8
  deviceProtocol : UInt8
  maxPacketSize : UInt8
  venderId : UInt16
  productId : UInt16
  deviceVersion : UInt16
  manufacturerIdx : UInt8
  productIdx : UInt8
  serialIdx : UInt8
  numOfConfig : UInt8
  deriving DecidableEq, Repr

namespace UsbDeviceDescriptor

def size : Nat := 18

def fields : StateM (List UInt8) UsbDeviceDescriptor := do
  return ⟨← u8, ← u8, ← u16, ← u8, ← u8, ← u8, ← u8, ← u16, ← u16, ← u16, ← u8, ← u8, ← u8, ← u8⟩

def toBytes (this : UsbDeviceDescriptor) : List UInt8 :=
  [this.descLength, this.descType] ++ leBytes 2 this.version.toNat ++
    [this.deviceClass, this.deviceSubclass, this.deviceProtocol, this.maxPacketSize] ++
    leBytes 2 this.venderId.toNat ++ leBytes 2 this.productId.toNat ++
    leBytes 2 this.deviceVersion.toNat ++
    [this.manufacturerIdx, this.productIdx, this.serialIdx, this.numOfConfig]

end UsbDeviceDescriptor

/-- A port with the boxes of the requests: `alloc` gives a zeroed one, `load` reads it, and where it
is used once more `clear` makes it a new one. -/
structure UsbPort (m : Type → Type) extends Port m where
  alloc : Nat → m (BitVec 64)
  load : BitVec 64 → Nat → m (List UInt8)
  clear : BitVec 64 → Nat → m Unit

section
variable {m : Type → Type} [Monad m] [MonadExceptOf Fault m] (xhc : UsbPort m) (slot : BitVec 8)

def requestDeviceDescriptor : m UsbDeviceDescriptor := do
  let ptr ← xhc.alloc UsbDeviceDescriptor.size
  Controller.requestDescriptor xhc.toPort slot .device 0 0 ⟨ptr, UsbDeviceDescriptor.size, 1⟩
  return (UsbDeviceDescriptor.fields (← xhc.load ptr UsbDeviceDescriptor.size)).1

def requestString (langId : BitVec 16) (index : BitVec 8) : m String := do
  let ptr ← xhc.alloc 128
  requestStringDescriptor xhc.toPort slot ptr (xhc.load ptr 128) langId index

def u16At (bytes : List UInt8) (i : Nat) : BitVec 16 :=
  BitVec.ofNat 16 (readLe (listMem bytes) (2 * i) 2)

def requestStringDescriptorZero : m (List (BitVec 16)) := do
  let ptr ← xhc.alloc 16
  Controller.requestDescriptor xhc.toPort slot .string 0 0 ⟨ptr, 8, 2⟩
  let bytes ← xhc.load ptr 16
  return (List.range 8).map (u16At bytes)

/-- The descriptors are collected in at most `fuel` calls of `next`. -/
def requestConfigDescriptorAndRest (fuel : Nat) : m (List UsbDescriptor) := do
  let ptr ← xhc.alloc 9
  Controller.requestDescriptor xhc.toPort slot .config 0 0 ⟨ptr, 9, 1⟩
  let configDescriptor := (ConfigDescriptor.fields (← xhc.load ptr 9)).1
  let len := configDescriptor.totalLength.toNat
  let ptr ← xhc.alloc len
  Controller.requestDescriptor xhc.toPort slot .config 0 0 ⟨ptr, len, 1⟩
  match DescriptorIterator.collect fuel (.new (← xhc.load ptr len)) with
  | .ok descriptors _ => return descriptors
  | .error e _ => throw e

def requestHidReportDescriptor (interfaceNumber : UInt8) : m (List UInt8) := do
  let ptr ← xhc.alloc 4096
  Controller.requestDescriptorForInterface xhc.toPort slot .report 0
    (interfaceNumber.toBitVec.setWidth 16) ⟨ptr, 4096, 1⟩
  xhc.load ptr 4096

/-- `start_usb_keyboard` with the box of its reports, after some rounds of its loop. -/
def runUsbKeyboard (rounds : Nat) (descriptors : List UsbDescriptor) : m (List KeyLog) := do
  let ptr ← xhc.alloc 8
  let report := do
    let bytes ← xhc.load ptr 8
    xhc.clear ptr 8
    return bytes
  startUsbKeyboard xhc.toPort slot ptr report rounds descriptors

/-- The report descriptor that it dumps. -/
def startUsbTablet (deviceDescriptor : UsbDeviceDescriptor) (descriptors : List UsbDescriptor) :
    m (List UInt8) :=
  if deviceDescriptor.deviceClass ≠ 0 ∨ deviceDescriptor.deviceSubclass ≠ 0 ∨
      deviceDescriptor.deviceProtocol ≠ 0 ∨ deviceDescriptor.venderId ≠ 0x0627 ∨
      deviceDescriptor.productId ≠ 0x0001 then
    throw (.err "Not a USB Tablet")
  else
    match pickInterfaceWithTriple descriptors (3, 0, 0) with
    | none => throw (.err "NO USB KBD Boot interface found")
    | some (_, interfaceDesc, _) =>
      requestHidReportDescriptor xhc slot interfaceDesc.interfaceNumber

end

/-- `Result::ok`. What panics is not caught. -/
def attempt {m : Type → Type} [Monad m] [MonadExceptOf Fault m] (x : m α) : m (Option α) :=
  tryCatch (some <$> x) fun e => match e with
    | .err _ => return none
    | e => throw e

inductive UsbDriver where
  | keyboard (logs : List KeyLog)
  | tablet (report : List UInt8)
  | none
  deriving DecidableEq, Repr

/-- What a run finds out about a device that has a string descriptor. -/
structure UsbInfo where
  vendor : Option String
  product : Option String
  serial : Option String
  descriptors : List UsbDescriptor
  driver : UsbDriver
  deriving DecidableEq, Repr

section
variable {m : Type → Type} [Monad m] [MonadExceptOf Fault m] (xhc : UsbPort m) (slot : BitVec 8)

def requestIndexed (langId : BitVec 16) (index : UInt8) : m (Option String) :=
  if index ≠ 0 then some <$> requestString xhc slot langId index.toBitVec else return none

/-- The drivers that `run` tries one after the other. -/
def startDriver (rounds : Nat) (deviceDescriptor : UsbDeviceDescriptor)
    (descriptors : List UsbDescriptor) : m UsbDriver := do
  match ← attempt (runUsbKeyboard xhc slot rounds descriptors) with
  | some logs => return .keyboard logs
  | none =>
    match ← attempt (startUsbTablet xhc slot deviceDescriptor descriptors) with
    | some report => return .tablet report
    | none => return .none

def runDevice (fuel rounds : Nat) : m (UsbDeviceDescriptor × Option UsbInfo) := do
  let deviceDescriptor ← requestDeviceDescriptor xhc slot
  match ← attempt (requestStringDescriptorZero xhc slot) with
  | none => return (deviceDescriptor, none)
  | some e =>
    let langId := e.getD 1 0
    let vendor ← requestIndexed xhc slot langId deviceDescriptor.manufacturerIdx
    let product ← requestIndexed xhc slot langId deviceDescriptor.productIdx
    let serial ← requestIndexed xhc slot langId deviceDescriptor.serialIdx
    let descriptors ← requestConfigDescriptorAndRest xhc slot fuel
    let driver ← startDriver xhc slot rounds deviceDescriptor descriptors
    return (deviceDescriptor, some ⟨vendor, product, serial, descriptors, driver⟩)

end

end Wasabi
