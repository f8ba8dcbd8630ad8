import Wasabi.Bits

namespace Wasabi
set_option autoImplicit true

inductive EndpointType where
  | isochOut
  | bulkOut
  | interruptOut
  | control
  | isochIn
  | bulkIn
  | interruptIn
  deriving DecidableEq, Repr

def EndpointType.value : EndpointType → BitVec 32
  | isochOut => 1
  | bulkOut => 2
  | interruptOut => 3
  | control => 4
  | isochIn => 5
  | bulkIn => 6
  | interruptIn => 7

inductive UsbMode where
  | unknown (psi : BitVec 32)
  | fullSpeed
  | lowSpeed
  | highSpeed
  | superSpeed
  deriving DecidableEq, Repr

def UsbMode.psi : UsbMode → BitVec 32
  | fullSpeed => 1
  | lowSpeed => 2
  | highSpeed => 3
  | superSpeed => 4
  | unknown psi => psi

structure EndpointContext where
  data : Vector (BitVec 32) 2
  trDequeuePtr : BitVec 64
  averageTrbLength : BitVec 16
  maxEsitPayloadLow : BitVec 16

namespace EndpointContext

def new : EndpointContext := ⟨.replicate 2 0, 0, 0, 0⟩

def setRingDequeuePointer (this : EndpointContext) (trDequeuePtr : BitVec 64) :
    Except Fault EndpointContext := do
  return { this with
    trDequeuePtr := ← Volatile.writeBits this.trDequeuePtr 4 60 (trDequeuePtr >>> 4) }

def setMaxPacketSize (this : EndpointContext) (maxPacketSize : BitVec 16) : EndpointContext :=
  let maxPacketSize := maxPacketSize.setWidth 32
  let data := this.data.set 1
    ((this.data[1] &&& ~~~(0xfff#32 <<< 16)) ||| maxPacketSize <<< 16)
  { this with data }

def setErrorCount (this : EndpointContext) (errorCount : BitVec 32) :
    Except Fault EndpointContext :=
  if errorCount &&& ~~~0b11 = 0 then
    let data := this.data.set 1
      ((this.data[1] &&& ~~~(0b11#32 <<< 1)) ||| errorCount <<< 1)
    .ok { this with data }
  else .error (.err "Invalid error_count")

def setDequeueCycleState (this : EndpointContext) (dcs : Bool) : Except Fault EndpointContext := do
  return { this with
    trDequeuePtr := ← Volatile.writeBits this.trDequeuePtr 0 1 (if dcs then 1 else 0) }

def setEpType (this : EndpointContext) (epType : EndpointType) : Except Fault EndpointContext :=
  let rawEpType := epType.value
  if rawEpType < 8 then
    let data := this.data.set 1
      ((this.data[1] &&& ~~~(0b111#32 <<< 3)) ||| rawEpType <<< 3)
    .ok { this with data }
  else .error (.err "Invalid ep_type")

def newControlEndpoint (maxPacketSize : BitVec 16) (trDequeuePtr : BitVec 64) :
    Except Fault EndpointContext := do
  let ep ← new.setEpType .control
  let ep ← ep.setDequeueCycleState true
  let ep ← ep.setErrorCount 3
  let ep := ep.setMaxPacketSize maxPacketSize
  let ep ← ep.setRingDequeuePointer trDequeuePtr
  return { ep with averageTrbLength := 8 }

end EndpointContext

structure DeviceContext where
  slotCtx : Vector (BitVec 32) 8
  epCtx : Vector EndpointContext 31

namespace DeviceContext

def default : DeviceContext := ⟨.replicate 8 0, .replicate 31 .new⟩

/-- The speed is shifted to the right here. -/
def setPortSpeed (this : DeviceContext) (mode : UsbMode) : Except Fault DeviceContext :=
  if mode.psi < 16 then
    let slotCtx := this.slotCtx.set 0
      ((this.slotCtx[0] &&& ~~~(0xf#32 <<< 20)) ||| mode.psi >>> 20)
    .ok { this with slotCtx }
  else .error (.err "psi out of range")

def setLastValidDci (this : DeviceContext) (dci : Nat) : Except Fault DeviceContext :=
  if dci ≤ 31 then
    let slotCtx := this.slotCtx.set 0
      ((this.slotCtx[0] &&& ~~~(0b11111#32 <<< 27)) ||| BitVec.ofNat 32 dci <<< 27)
    .ok { this with slotCtx }
  else .error (.err "num_ep_ctx out of range")

def setRootHubPortNumber (this : DeviceContext) (port : Nat) : Except Fault DeviceContext :=
  if 0 < port ∧ port < 256 then
    let slotCtx := this.slotCtx.set 1
      ((this.slotCtx[1] &&& ~~~(0xff#32 <<< 16)) ||| BitVec.ofNat 32 port <<< 16)
    .ok { this with slotCtx }
  else .error (.err "port out of range")

end DeviceContext

structure InputControlContext where
  dropContextBitmap : BitVec 32
  addContextBitmap : BitVec 32

namespace InputControlContext

def default : InputControlContext := ⟨0, 0⟩

def addContext (this : InputControlContext) (ici : Nat) : Except Fault InputControlContext := do
  if ici < 32 then
    return { this with addContextBitmap := this.addContextBitmap ||| (← shl 1 ici) }
  else throw (.err "Input context index out of range")

end InputControlContext

structure InputContext where
  inputCtrlCtx : InputControlContext
  deviceCtx : DeviceContext

namespace InputContext

def default : InputContext := ⟨.default, .default⟩

def setEpCtx (this : InputContext) (dci : Nat) (epCtx : EndpointContext) :
    Except Fault InputContext := do
  let index ← checkedSub dci 1
  if h : index < 31 then
    return { this with deviceCtx := { this.deviceCtx with
      epCtx := this.deviceCtx.epCtx.set index epCtx } }
  else throw .outOfBounds

def setInputCtrlCtx (this : InputContext) (inputCtrlCtx : InputControlContext) :
    Except Fault InputContext :=
  .ok { this with inputCtrlCtx }

def setPortSpeed (this : InputContext) (psi : UsbMode) : Except Fault InputContext := do
  return { this with deviceCtx := ← this.deviceCtx.setPortSpeed psi }

def setRootHubPortNumber (this : InputContext) (port : Nat) : Except Fault InputContext := do
  return { this with deviceCtx := ← this.deviceCtx.setRootHubPortNumber port }

def setLastValidDci (this : InputContext) (dci : Nat) : Except Fault InputContext := do
  return { this with deviceCtx := ← this.deviceCtx.setLastValidDci dci }

end InputContext

end Wasabi
