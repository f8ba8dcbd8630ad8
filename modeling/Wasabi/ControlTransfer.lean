import Wasabi.CommandRing
import Wasabi.Descriptor

namespace Wasabi
set_option autoImplicit true

namespace GenericTrbEntry

def ctrlBitInterruptOnShortPacket : BitVec 32 := 1 <<< 2
def ctrlBitInterruptOnCompletion : BitVec 32 := 1 <<< 5
def ctrlBitImmediateData : BitVec 32 := 1 <<< 6
def ctrlBitDataDirIn : BitVec 32 := 1 <<< 16

def completionCode (trb : GenericTrbEntry) : Except Fault (BitVec 32) :=
  Volatile.readBits trb.option 24 8

def transferResultOk (trb : GenericTrbEntry) : Except Fault Unit := do
  if (← trb.trbType) ≠ TrbType.transferEvent.value then
    throw (.err "Not a TransferEvent")
  else if (← trb.completionCode) ≠ 1 ∧ (← trb.completionCode) ≠ 13 then
    throw (.err "CompletionCode was not Success")

end GenericTrbEntry

/-- A data buffer of `len` elements of `size` bytes each. -/
structure DataBuffer where
  ptr : BitVec 64
  len : Nat
  size : Nat
  deriving DecidableEq, Repr

namespace DataBuffer

def bytes (buf : DataBuffer) : Nat := buf.len * buf.size

end DataBuffer

structure SetupStageTrb where
  requestType : BitVec 8
  request : BitVec 8
  value : BitVec 16
  index : BitVec 16
  length : BitVec 16
  option : BitVec 32
  control : BitVec 32
  deriving DecidableEq, Repr

namespace SetupStageTrb

def reqTypeDirDeviceToHost : BitVec 8 := 1 <<< 7
def reqTypeTypeClass : BitVec 8 := 1 <<< 5
def reqTypeToInterface : BitVec 8 := 1
def reqGetReport : BitVec 8 := 1
def reqGetDescriptor : BitVec 8 := 6
def reqSetConfiguration : BitVec 8 := 9
def reqSetInterface : BitVec 8 := 11
def reqSetProtocol : BitVec 8 := 0x0b

def trtNoDataStage : BitVec 32 := 0
def trtOutDataStage : BitVec 32 := 2
def trtInDataStage : BitVec 32 := 3

def transferType (request : BitVec 8) (length : BitVec 16) : BitVec 32 :=
  if length = 0 then trtNoDataStage
  else if request &&& reqTypeDirDeviceToHost ≠ 0 then trtInDataStage
  else trtOutDataStage

def new (requestType request : BitVec 8) (value index length : BitVec 16) : SetupStageTrb :=
  { requestType, request, value, index, length
    option := 8
    control := transferType request length <<< 16 ||| TrbType.setupStage.value <<< 10 |||
      GenericTrbEntry.ctrlBitImmediateData }

/-- The `transmute` to a generic entry; the fields are little-endian. -/
def toEntry (trb : SetupStageTrb) : GenericTrbEntry :=
  ⟨BitVec.ofNat 64 (trb.requestType.toNat + 2 ^ 8 * trb.request.toNat + 2 ^ 16 * trb.value.toNat +
    2 ^ 32 * trb.index.toNat + 2 ^ 48 * trb.length.toNat), trb.option, trb.control⟩

end SetupStageTrb

structure DataStageTrb where
  buf : BitVec 64
  option : BitVec 32
  control : BitVec 32
  deriving DecidableEq, Repr

namespace DataStageTrb

def newIn (buf : DataBuffer) : DataStageTrb :=
  { buf := buf.ptr
    option := BitVec.ofNat 32 buf.bytes
    control := TrbType.dataStage.value <<< 10 ||| GenericTrbEntry.ctrlBitDataDirIn |||
      GenericTrbEntry.ctrlBitInterruptOnCompletion |||
      GenericTrbEntry.ctrlBitInterruptOnShortPacket }

def toEntry (trb : DataStageTrb) : GenericTrbEntry := ⟨trb.buf, trb.option, trb.control⟩

end DataStageTrb

structure StatusStageTrb where
  reserved : BitVec 64
  option : BitVec 32
  control : BitVec 32
  deriving DecidableEq, Repr

namespace StatusStageTrb

def newOut : StatusStageTrb := ⟨0, 0, TrbType.statusStage.value <<< 10⟩

def newIn : StatusStageTrb :=
  ⟨0, 0, TrbType.statusStage.value <<< 10 ||| GenericTrbEntry.ctrlBitDataDirIn |||
    GenericTrbEntry.ctrlBitInterruptOnCompletion |||
    GenericTrbEntry.ctrlBitInterruptOnShortPacket⟩

def toEntry (trb : StatusStageTrb) : GenericTrbEntry := ⟨trb.reserved, trb.option, trb.control⟩

end StatusStageTrb

def Controller.descriptorValue (descType : UsbDescriptorType) (descIndex : BitVec 8) : BitVec 16 :=
  descType.value.toBitVec.setWidth 16 <<< 8 ||| descIndex.setWidth 16

namespace SetupStageTrb

def getDescriptor (descType : UsbDescriptorType) (descIndex : BitVec 8) (langId : BitVec 16)
    (len : Nat) : SetupStageTrb :=
  .new reqTypeDirDeviceToHost reqGetDescriptor (Controller.descriptorValue descType descIndex)
    langId (BitVec.ofNat 16 len)

def getReport (len : Nat) : SetupStageTrb :=
  .new (reqTypeDirDeviceToHost ||| reqTypeTypeClass ||| reqTypeToInterface) reqGetReport 0x0200 0
    (BitVec.ofNat 16 len)

def setConfiguration (configValue : BitVec 8) : SetupStageTrb :=
  .new 0 reqSetConfiguration (configValue.setWidth 16) 0 0

def setInterface (interfaceNumber altSetting : BitVec 8) : SetupStageTrb :=
  .new reqTypeToInterface reqSetInterface (altSetting.setWidth 16) (interfaceNumber.setWidth 16) 0

def setProtocol (interfaceNumber protocol : BitVec 8) : SetupStageTrb :=
  .new reqTypeToInterface reqSetProtocol (protocol.setWidth 16) (interfaceNumber.setWidth 16) 0

def getInterfaceDescriptor (descType : UsbDescriptorType) (descIndex : BitVec 8)
    (wIndex : BitVec 16) (len : Nat) : SetupStageTrb :=
  .new (reqTypeDirDeviceToHost ||| reqTypeToInterface) reqGetDescriptor
    (Controller.descriptorValue descType descIndex) wIndex (BitVec.ofNat 16 len)

end SetupStageTrb

/-- What a request uses: `push` on the ring of the control endpoint, the doorbell, and waiting for
the event of an entry. -/
structure Port (m : Type → Type) where
  push : GenericTrbEntry → m Nat
  notifyEp : BitVec 8 → Nat → m Unit
  wait : Nat → m GenericTrbEntry

namespace Controller

variable {m : Type → Type} [Monad m] [MonadExceptOf Fault m] (xhc : Port m)

def requestIn (slot : BitVec 8) (setup : SetupStageTrb) (buf : DataBuffer) : m Unit := do
  let _ ← xhc.push setup.toEntry
  let trbPtrWaiting ← xhc.push (DataStageTrb.newIn buf).toEntry
  let _ ← xhc.push StatusStageTrb.newOut.toEntry
  xhc.notifyEp slot 1
  MonadExcept.ofExcept (← xhc.wait trbPtrWaiting).transferResultOk

def requestSet (slot : BitVec 8) (setup : SetupStageTrb) : m Unit := do
  let _ ← xhc.push setup.toEntry
  let trbPtrWaiting ← xhc.push StatusStageTrb.newIn.toEntry
  xhc.notifyEp slot 1
  MonadExcept.ofExcept (← xhc.wait trbPtrWaiting).transferResultOk

def requestDescriptor (slot : BitVec 8) (descType : UsbDescriptorType) (descIndex : BitVec 8)
    (langId : BitVec 16) (buf : DataBuffer) : m Unit :=
  requestIn xhc slot (.getDescriptor descType descIndex langId buf.bytes) buf

def requestReportBytes (slot : BitVec 8) (ptr : BitVec 64) (len : Nat) : m Unit :=
  requestIn xhc slot (.getReport len) ⟨ptr, len, 1⟩

def requestSetConfig (slot : BitVec 8) (configValue : BitVec 8) : m Unit :=
  requestSet xhc slot (.setConfiguration configValue)

def requestSetInterface (slot : BitVec 8) (interfaceNumber altSetting : BitVec 8) : m Unit :=
  requestSet xhc slot (.setInterface interfaceNumber altSetting)

def requestSetProtocol (slot : BitVec 8) (interfaceNumber protocol : BitVec 8) : m Unit :=
  requestSet xhc slot (.setProtocol interfaceNumber protocol)

def requestDescriptorForInterface (slot : BitVec 8) (descType : UsbDescriptorType)
    (descIndex : BitVec 8) (wIndex : BitVec 16) (buf : DataBuffer) : m Unit :=
  requestIn xhc slot (.getInterfaceDescriptor descType descIndex wIndex buf.bytes) buf

end Controller

inductive ControlRequest where
  | descriptor (descType : UsbDescriptorType) (descIndex : BitVec 8) (langId : BitVec 16)
      (buf : DataBuffer)
  | reportBytes (ptr : BitVec 64) (len : Nat)
  | setConfig (configValue : BitVec 8)
  | setInterface (interfaceNumber altSetting : BitVec 8)
  | setProtocol (interfaceNumber protocol : BitVec 8)
  | descriptorForInterface (descType : UsbDescriptorType) (descIndex : BitVec 8)
      (wIndex : BitVec 16) (buf : DataBuffer)
  deriving DecidableEq, Repr

namespace ControlRequest

def run {m : Type → Type} [Monad m] [MonadExceptOf Fault m] (xhc : Port m) (slot : BitVec 8) :
    ControlRequest → m Unit
  | descriptor descType descIndex langId buf =>
    Controller.requestDescriptor xhc slot descType descIndex langId buf
  | reportBytes ptr len => Controller.requestReportBytes xhc slot ptr len
  | setConfig configValue => Controller.requestSetConfig xhc slot configValue
  | setInterface interfaceNumber altSetting =>
    Controller.requestSetInterface xhc slot interfaceNumber altSetting
  | setProtocol interfaceNumber protocol =>
    Controller.requestSetProtocol xhc slot interfaceNumber protocol
  | descriptorForInterface descType descIndex wIndex buf =>
    Controller.requestDescriptorForInterface xhc slot descType descIndex wIndex buf

def reads : ControlRequest → Bool
  | descriptor .. => true
  | reportBytes .. => true
  | descriptorForInterface .. => true
  | _ => false

end ControlRequest

/-- `notify_ep`, where the controller has `doorbells` doorbell registers. -/
def Controller.notifyEp (doorbells : Nat) (slot : BitVec 8) (dci : Nat) : Except Fault Unit :=
  if slot.toNat < doorbells then
    if dci < 256 then .ok () else .error (.err "Invalid dci")
  else .error (.err "Invalid slot")

/-- A port that records what is pushed; `event` is what the controller answers. -/
def recorder (doorbells : Nat) (event : Nat → GenericTrbEntry) :
    Port (EStateM Fault (List GenericTrbEntry)) where
  push trb := do
    let trbs ← get
    set (trbs ++ [trb])
    return trbs.length
  notifyEp slot dci := MonadExcept.ofExcept (Controller.notifyEp doorbells slot dci)
  wait ptr := pure (event ptr)

def recordedBuffer (contents : Nat → List UInt8) :
    EStateM Fault (List GenericTrbEntry) (List UInt8) :=
  do return contents (← get).length

def ControlRequest.pushed (r : ControlRequest) (doorbells : Nat) (event : Nat → GenericTrbEntry)
    (slot : BitVec 8) : List GenericTrbEntry :=
  endState (r.run (recorder doorbells event) slot) []

namespace GenericTrbEntry

def trt (trb : GenericTrbEntry) : BitVec 32 := trb.control >>> 16 &&& 3

def dirIn (trb : GenericTrbEntry) : Bool := trb.control.getLsbD 16

def bmRequestType (trb : GenericTrbEntry) : BitVec 8 := trb.data.extractLsb' 0 8

def bRequest (trb : GenericTrbEntry) : BitVec 8 := trb.data.extractLsb' 8 8

def wValue (trb : GenericTrbEntry) : BitVec 16 := trb.data.extractLsb' 16 16

def wIndex (trb : GenericTrbEntry) : BitVec 16 := trb.data.extractLsb' 32 16

def wLength (trb : GenericTrbEntry) : BitVec 16 := trb.data.extractLsb' 48 16

end GenericTrbEntry

/-- The transfer type that the other fields of a Setup TRB call for. -/
def expectedTrt (setup : GenericTrbEntry) : BitVec 32 :=
  if setup.wLength = 0 then 0 else if setup.bmRequestType.getLsbD 7 then 3 else 2

structure StagesAgree (setup : GenericTrbEntry) (data : Option GenericTrbEntry)
    (status : GenericTrbEntry) : Prop where
  trt : setup.trt = expectedTrt setup
  dataStage : data.isSome ↔ setup.trt ≠ 0
  dataDir : ∀ d, data = some d → (d.dirIn = true ↔ setup.trt = 3)
  dataLength : ∀ d, data = some d → d.option.toNat = setup.wLength.toNat
  statusDir : status.dirIn = true ↔ ¬∃ d, data = some d ∧ d.dirIn = true

/-- The entries are the stages of one control transfer, in order, and agree about its direction and
length. -/
def DirectionConsistent (trbs : List GenericTrbEntry) : Prop :=
  ∃ setup data status, trbs = setup :: (data.toList ++ [status]) ∧
    setup.kind = TrbType.setupStage.value ∧
    (∀ d, data = some d → d.kind = TrbType.dataStage.value) ∧
    status.kind = TrbType.statusStage.value ∧ StagesAgree setup data status

theorem recorder_push (trbs : List GenericTrbEntry) (trb : GenericTrbEntry) :
    (recorder n event).push trb trbs = .ok trbs.length (trbs ++ [trb]) := rfl

theorem transferResultOk_endState (trb : GenericTrbEntry) (s : σ) :
    endState (MonadExcept.ofExcept trb.transferResultOk : EStateM Fault σ Unit) s = s := by
  cases h : trb.transferResultOk <;> rfl

theorem requestIn_pushes : endState (Controller.requestIn (recorder n event) slot setup buf) trbs =
    trbs ++ [setup.toEntry] ++ [(DataStageTrb.newIn buf).toEntry] ++
      [StatusStageTrb.newOut.toEntry] := by
  rw [Controller.requestIn, endState_bind (recorder_push _ _), endState_bind (recorder_push _ _),
    endState_bind (recorder_push _ _)]
  apply endState_ofExcept_bind
  intro _
  exact transferResultOk_endState _ _

theorem requestSet_pushes : endState (Controller.requestSet (recorder n event) slot setup) trbs =
    trbs ++ [setup.toEntry] ++ [StatusStageTrb.newIn.toEntry] := by
  rw [Controller.requestSet, endState_bind (recorder_push _ _), endState_bind (recorder_push _ _)]
  apply endState_ofExcept_bind
  intro _
  exact transferResultOk_endState _ _

namespace SetupStageTrb

variable {ty req : BitVec 8} {val idx len : BitVec 16}

theorem trt_new : (new ty req val idx len).toEntry.trt =
    transferType req len := by
  rw [transferType]
  split
  · next h =>
    simp only [GenericTrbEntry.trt, toEntry, new, transferType, if_pos h]
    decide
  · next h =>
    split
    · next h' =>
      simp only [GenericTrbEntry.trt, toEntry, new, transferType, if_neg h, if_pos h']
      decide
    · next h' =>
      simp only [GenericTrbEntry.trt, toEntry, new, transferType, if_neg h, if_neg h']
      decide

theorem kind_new : (new ty req val idx len).toEntry.kind =
    TrbType.setupStage.value := by
  simp only [GenericTrbEntry.kind, toEntry, new, transferType]
  split
  · decide
  · split <;> decide

theorem wLength_new : (new ty req val idx len).toEntry.wLength = len := by
  apply BitVec.eq_of_toNat_eq
  simp only [GenericTrbEntry.wLength, toEntry, new, BitVec.extractLsb'_toNat, BitVec.toNat_ofNat,
    Nat.shiftRight_eq_div_pow]
  omega

theorem bmRequestType_new : (new ty req val idx len).toEntry.bmRequestType = ty := by
  apply BitVec.eq_of_toNat_eq
  simp only [GenericTrbEntry.bmRequestType, toEntry, new, BitVec.extractLsb'_toNat,
    BitVec.toNat_ofNat, Nat.shiftRight_eq_div_pow]
  omega

theorem request_new : (new ty req val idx len).toEntry.bRequest = req := by
  have hlt := ty.isLt
  apply BitVec.eq_of_toNat_eq
  simp only [GenericTrbEntry.bRequest, toEntry, new, BitVec.extractLsb'_toNat, BitVec.toNat_ofNat,
    Nat.shiftRight_eq_div_pow]
  omega

theorem value_new : (new ty req val idx len).toEntry.wValue = val := by
  have hty := ty.isLt
  have hreq := req.isLt
  apply BitVec.eq_of_toNat_eq
  simp only [GenericTrbEntry.wValue, toEntry, new, BitVec.extractLsb'_toNat, BitVec.toNat_ofNat,
    Nat.shiftRight_eq_div_pow]
  omega

theorem index_new : (new ty req val idx len).toEntry.wIndex = idx := by
  have hty := ty.isLt
  have hreq := req.isLt
  have hval := val.isLt
  apply BitVec.eq_of_toNat_eq
  simp only [GenericTrbEntry.wIndex, toEntry, new, BitVec.extractLsb'_toNat, BitVec.toNat_ofNat,
    Nat.shiftRight_eq_div_pow]
  omega

end SetupStageTrb

/-- A request that reads never asks for an IN data stage: its request code has bit 7 clear. -/
theorem requestIn_not_consistent (hty : ty.getLsbD 7 = true)
    (hreq : req &&& SetupStageTrb.reqTypeDirDeviceToHost = 0) :
    ¬DirectionConsistent ([(SetupStageTrb.new ty req val idx len).toEntry] ++
      [(DataStageTrb.newIn buf).toEntry] ++ [StatusStageTrb.newOut.toEntry]) := by
  rintro ⟨setup, data, status, htrbs, _, _, _, hagree⟩
  cases data with
  | none => simp at htrbs
  | some d =>
    simp only [List.cons_append, List.nil_append, Option.toList_some, List.cons.injEq] at htrbs
    obtain ⟨rfl, rfl, rfl, _⟩ := htrbs
    have htrt := hagree.trt
    have hstage := hagree.dataStage.1 rfl
    rw [SetupStageTrb.trt_new] at htrt hstage
    rw [expectedTrt, SetupStageTrb.wLength_new, SetupStageTrb.bmRequestType_new, if_pos hty] at htrt
    by_cases hlen : len = 0
    · exact hstage (if_pos hlen)
    · rw [SetupStageTrb.transferType, if_neg hlen, if_neg hlen, if_neg (not_not.2 hreq)] at htrt
      exact absurd htrt (by decide)

theorem requestSet_consistent : DirectionConsistent
    ([(SetupStageTrb.new ty req val idx 0).toEntry] ++ [StatusStageTrb.newIn.toEntry]) := by
  refine ⟨_, none, _, rfl, SetupStageTrb.kind_new, ?_, by decide, ?_⟩
  · intro d hd
    cases hd
  · have htrt : SetupStageTrb.transferType req 0 = 0 := if_pos rfl
    constructor
    case trt =>
      rw [SetupStageTrb.trt_new, expectedTrt, SetupStageTrb.wLength_new, if_pos rfl, htrt]
    case dataStage =>
      rw [SetupStageTrb.trt_new, htrt]
      exact iff_of_false (by decide) (by decide)
    case dataDir =>
      intro d hd
      cases hd
    case dataLength =>
      intro d hd
      cases hd
    case statusDir =>
      apply iff_of_true (by decide)
      rintro ⟨d, hd, _⟩
      cases hd

theorem control_transfer_consistent_iff (r : ControlRequest) (doorbells : Nat)
    (event : Nat → GenericTrbEntry) (slot : BitVec 8) :
    DirectionConsistent (r.pushed doorbells event slot) ↔ r.reads = false := by
  cases r with
  | descriptor descType descIndex langId buf =>
    rw [ControlRequest.pushed, ControlRequest.run, Controller.requestDescriptor,
      requestIn_pushes]
    exact iff_of_false (requestIn_not_consistent (by decide) (by decide)) nofun
  | reportBytes ptr len =>
    rw [ControlRequest.pushed, ControlRequest.run, Controller.requestReportBytes,
      requestIn_pushes]
    exact iff_of_false (requestIn_not_consistent (by decide) (by decide)) nofun
  | setConfig configValue =>
    rw [ControlRequest.pushed, ControlRequest.run, Controller.requestSetConfig,
      requestSet_pushes]
    exact iff_of_true requestSet_consistent rfl
  | setInterface interfaceNumber altSetting =>
    rw [ControlRequest.pushed, ControlRequest.run, Controller.requestSetInterface,
      requestSet_pushes]
    exact iff_of_true requestSet_consistent rfl
  | setProtocol interfaceNumber protocol =>
    rw [ControlRequest.pushed, ControlRequest.run, Controller.requestSetProtocol,
      requestSet_pushes]
    exact iff_of_true requestSet_consistent rfl
  | descriptorForInterface descType descIndex wIndex buf =>
    rw [ControlRequest.pushed, ControlRequest.run, Controller.requestDescriptorForInterface,
      requestIn_pushes]
    exact iff_of_false (requestIn_not_consistent (by decide) (by decide)) nofun

theorem get_device_descriptor_inconsistent : ¬DirectionConsistent
    ((ControlRequest.descriptor .device 0 0 ⟨0x1000, 1, 18⟩).pushed 256 (fun _ => .default) 1) := by
  rw [ControlRequest.pushed, ControlRequest.run, Controller.requestDescriptor, requestIn_pushes]
  exact requestIn_not_consistent (by decide) (by decide)

end Wasabi
