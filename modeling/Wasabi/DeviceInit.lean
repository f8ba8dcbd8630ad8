import Wasabi.DeviceSlots
import Wasabi.InputContext

namespace Wasabi
set_option autoImplicit true

namespace GenericTrbEntry

def cmdEnableSlot : Except Fault GenericTrbEntry := default.setTrbType .enableSlotCommand

def setSlotId (trb : GenericTrbEntry) (slot : BitVec 8) : Except Fault GenericTrbEntry := do
  return { trb with control := ← unwrap (Volatile.writeBits trb.control 24 8 (slot.setWidth 32)) }

def cmdAddressDevice (inputContext : BitVec 64) (slot : BitVec 8) :
    Except Fault GenericTrbEntry := do
  let trb ← default.setTrbType .addressDeviceCommand
  { trb with data := inputContext }.setSlotId slot

def cmdResultOk (trb : GenericTrbEntry) : Except Fault Unit := do
  if (← trb.trbType) ≠ TrbType.commandCompletionEvent.value then
    throw (.err "Not as CommandCompletionEvent")
  else if (← trb.completionCode) ≠ 1 then
    throw (.err "CompletionCode was not Success")

def code (trb : GenericTrbEntry) : BitVec 32 := trb.option >>> 24 &&& 0xff

def slot (trb : GenericTrbEntry) : BitVec 8 := trb.control.extractLsb' 24 8

structure Succeeded (trb : GenericTrbEntry) : Prop where
  kind : trb.kind = TrbType.commandCompletionEvent.value
  code : trb.code = 1

theorem completionCode_eq (trb : GenericTrbEntry) : trb.completionCode = .ok trb.code := by
  have hmask : (1#32 <<< 8) - 1#32 = 0xff#32 := by decide
  rw [completionCode, Volatile.readBits_eq (by omega) (by omega), hmask]
  rfl

theorem cmdResultOk_iff (trb : GenericTrbEntry) : trb.cmdResultOk = .ok () ↔ trb.Succeeded := by
  rw [cmdResultOk, trbType_eq, completionCode_eq]
  simp only [ok_bind]
  constructor
  · intro h
    split at h
    · cases h
    · next hkind =>
      split at h
      · cases h
      · next hcode => exact ⟨Decidable.not_not.1 hkind, Decidable.not_not.1 hcode⟩
  · rintro ⟨hkind, hcode⟩
    rw [if_neg (not_not.2 hkind), if_neg (not_not.2 hcode)]
    rfl

end GenericTrbEntry

/-- What the driver has to deal with: the registers, what the reads of PORTSC give one after the
other, the event that answers each command, and where the allocator puts the boxes. -/
structure XhcDevice where
  regs : XhcRegisters
  readings : Nat → BitVec 32
  answers : Nat → GenericTrbEntry
  outputContext : BitVec 64
  inputContext : BitVec 64
  ctrlEpRing : Nat
  aligned : ctrlEpRing % 4096 = 0

/-- The state of a device initialisation; `outputContexts` lists the slots that
`set_output_context` has been called with. -/
structure DeviceInit where
  dcbaa : DeviceContextBaseAddressArray
  commandRing : CommandRing
  reads : Nat
  writes : List (BitVec 64 × BitVec 32)
  commands : List GenericTrbEntry
  inputContext : Option InputContext
  outputContexts : List (BitVec 8)

namespace DeviceInit

def start (dcbaa : DeviceContextBaseAddressArray) (commandRing : CommandRing) : DeviceInit :=
  ⟨dcbaa, commandRing, 0, [], [], none, []⟩

def onRegisters (x : RegisterM α) : EStateM Fault DeviceInit α := fun this =>
  match x this.writes with
  | .ok a writes => .ok a { this with writes := writes }
  | .error e writes => .error e { this with writes := writes }

end DeviceInit

abbrev DeviceM := EStateM Fault DeviceInit

section
variable (xhc : XhcDevice)

namespace PortScEntry

def value : DeviceM (BitVec 32) := do
  let this ← get
  set { this with reads := this.reads + 1 }
  return xhc.readings this.reads

def bit (pos : Nat) : DeviceM Bool := do
  return ((← value xhc) &&& (1#32 <<< pos)) != 0

def ccs : DeviceM Bool := bit xhc 0
def ped : DeviceM Bool := bit xhc 1
def pr : DeviceM Bool := bit xhc 4
def pp : DeviceM Bool := bit xhc 9

def preserveMask : BitVec 32 := 0b01001111000000011111111111101001

def assertBit (ptr : BitVec 64) (pos : Nat) : DeviceM Unit := do
  let old ← value xhc
  DeviceInit.onRegisters (modify (· ++ [(ptr, (old &&& preserveMask) ||| 1#32 <<< pos)]))

def assertPp (ptr : BitVec 64) : DeviceM Unit := assertBit xhc ptr 9
def assertPr (ptr : BitVec 64) : DeviceM Unit := assertBit xhc ptr 4

/-- A task that yields while `busy` holds, at most `fuel` times. -/
def waitWhile (fuel : Nat) (busy : DeviceM Bool) : DeviceM Unit :=
  loopFrom .diverged (fun () => do if ← busy then return .inl () else return .inr ()) fuel ()

def resetPort (fuel : Nat) (ptr : BitVec 64) : DeviceM Unit := do
  assertPp xhc ptr
  waitWhile fuel do return !(← pp xhc)
  assertPr xhc ptr
  waitWhile fuel (pr xhc)

def isEnabled : DeviceM Bool := do
  if ← pp xhc then
    if ← ccs xhc then
      if ← ped xhc then
        return !(← pr xhc)
  return false

def portSpeed : DeviceM UsbMode := do
  let v := extractBits (← value xhc) 10 4
  return if v = 1 then .fullSpeed
    else if v = 2 then .lowSpeed
    else if v = 3 then .highSpeed
    else if v = 4 then .superSpeed
    else .unknown v

def maxPacketSize : DeviceM (BitVec 16) := do
  match ← portSpeed xhc with
  | .fullSpeed | .lowSpeed => return 8
  | .highSpeed => return 64
  | .superSpeed => return 512
  | .unknown _ => throw (.err "Unknown Protocol Speed ID")

end PortScEntry

/-- `push` on the command ring; what has been pushed is the controller's. -/
def pushCommand (cmd : GenericTrbEntry) : DeviceM Nat := fun this =>
  match CommandRing.push cmd this.commandRing with
  | .ok ptr commandRing =>
    .ok ptr { this with commandRing := commandRing, commands := this.commands ++ [cmd] }
  | .error e commandRing => .error e { this with commandRing := commandRing }

def lastAnswer (this : DeviceInit) : GenericTrbEntry := xhc.answers (this.commands.length - 1)

def sendCommand (cmd : GenericTrbEntry) : DeviceM GenericTrbEntry := do
  let _ ← pushCommand cmd
  DeviceInit.onRegisters xhc.regs.notifyXhc
  return lastAnswer xhc (← get)

def setOutputContextForSlot (slot : BitVec 8) (outputContext : BitVec 64) : DeviceM Unit := do
  modify fun this => { this with outputContexts := this.outputContexts ++ [slot] }
  let this ← get
  set { this with dcbaa := ← MonadExcept.ofExcept (this.dcbaa.setOutputContext slot outputContext) }

namespace PciXhciDriver

def initPort (fuel port : Nat) : DeviceM (BitVec 8) := do
  match xhc.regs.portsc.get port with
  | none => throw (.err "invalid portsc")
  | some portsc =>
    PortScEntry.resetPort xhc fuel portsc
    if !(← PortScEntry.isEnabled xhc) then
      throw (.err "port is not enabled")
    let cmd ← MonadExcept.ofExcept GenericTrbEntry.cmdEnableSlot
    let trb ← sendCommand xhc cmd
    MonadExcept.ofExcept trb.slotId

def inputContext (port : Nat) : Except Fault InputContext := do
  let inputCtrlCtx ← InputControlContext.default.addContext 0
  let inputCtrlCtx ← inputCtrlCtx.addContext 1
  let inputContext ← InputContext.default.setInputCtrlCtx inputCtrlCtx
  let inputContext ← inputContext.setRootHubPortNumber port
  inputContext.setLastValidDci 1

def addressDevice (port : Nat) (slot : BitVec 8) : DeviceM CommandRing := do
  setOutputContextForSlot slot xhc.outputContext
  let inputContext ← MonadExcept.ofExcept (inputContext port)
  match xhc.regs.portsc.get port with
  | none => throw (.err "PORTSC was invalid")
  | some _ =>
    let inputContext ←
      MonadExcept.ofExcept (inputContext.setPortSpeed (← PortScEntry.portSpeed xhc))
    let ctrlEpRing ← MonadExcept.ofExcept (CommandRing.default xhc.ctrlEpRing xhc.aligned)
    let epCtx ← MonadExcept.ofExcept (EndpointContext.newControlEndpoint
      (← PortScEntry.maxPacketSize xhc) (BitVec.ofNat 64 ctrlEpRing.ringPhysAddr))
    let inputContext ← MonadExcept.ofExcept (inputContext.setEpCtx 1 epCtx)
    modify fun this => { this with inputContext := some inputContext }
    let cmd ← MonadExcept.ofExcept (GenericTrbEntry.cmdAddressDevice xhc.inputContext slot)
    let trb ← sendCommand xhc cmd
    MonadExcept.ofExcept trb.cmdResultOk
    return ctrlEpRing

/-- `init_port` followed by `address_device`, as `run` calls them. -/
def initDevice (fuel port : Nat) : DeviceM CommandRing := do
  let slot ← initPort xhc fuel port
  addressDevice xhc port slot

end PciXhciDriver

/-- The port comes out of its reset enabled, and the command ring has room. -/
def PortReady (fuel port : Nat) (s : DeviceInit) : Prop :=
  ∃ portsc s₁ s₂ cmd ptr commandRing, xhc.regs.portsc.get port = some portsc ∧
    PortScEntry.resetPort xhc fuel portsc s = .ok () s₁ ∧
    PortScEntry.isEnabled xhc s₁ = .ok true s₂ ∧ GenericTrbEntry.cmdEnableSlot = .ok cmd ∧
    CommandRing.push cmd s.commandRing = .ok ptr commandRing

/-- What a run of the initialisation from `s` may do, where the first event answers the Enable Slot
command and the second the Address Device command. -/
structure ProceedsOnSuccess (fuel port : Nat) (s : DeviceInit) : Prop where
  used : (endState (PciXhciDriver.initDevice xhc fuel port) s).outputContexts ≠ [] ∨
    (∃ cmd ∈ (endState (PciXhciDriver.initDevice xhc fuel port) s).commands,
      cmd.kind = TrbType.addressDeviceCommand.value) → (xhc.answers 0).Succeeded
  refused : (endState (PciXhciDriver.initDevice xhc fuel port) s).commands ≠ [] →
    ¬(xhc.answers 0).Succeeded → ∃ msg s',
      PciXhciDriver.initDevice xhc fuel port s = .error (.err msg) s' ∧ s'.dcbaa = s.dcbaa
  inRange : ∀ slot ∈ (endState (PciXhciDriver.initDevice xhc fuel port) s).outputContexts,
    1 ≤ slot.toNat ∧ slot.toNat - 1 < 255
  returns : ∀ ring s', PciXhciDriver.initDevice xhc fuel port s = .ok ring s' →
    (xhc.answers 0).Succeeded ∧ (xhc.answers 1).Succeeded

end

section
variable {xhc : XhcDevice} {inv : DeviceInit → Prop} {bar0 : BitVec 64}
  {capRegs : CapabilityRegisters}

namespace PortScEntry

theorem waitWhile_keeps {busy : DeviceM Bool} (hbusy : Keeps inv busy) (fuel : Nat) :
    Keeps inv (waitWhile fuel busy) := by
  refine Keeps.loopFrom (fun _ => hbusy.bind fun b => ?_) fuel ()
  cases b with
  | true => exact .pure _
  | false => exact .pure _

variable (hinv : ∀ s n w, inv s → inv { s with reads := n, writes := w })

include hinv

theorem value_keeps : Keeps inv (value xhc) := fun s h => hinv s (s.reads + 1) s.writes h

theorem bit_keeps (pos : Nat) : Keeps inv (bit xhc pos) :=
  (value_keeps hinv).bind fun _ => .pure _

theorem assertBit_keeps (ptr : BitVec 64) (pos : Nat) : Keeps inv (assertBit xhc ptr pos) :=
  (value_keeps hinv).bind fun _ s h => hinv s s.reads _ h

theorem resetPort_keeps (fuel : Nat) (ptr : BitVec 64) : Keeps inv (resetPort xhc fuel ptr) :=
  (assertBit_keeps hinv ptr 9).bind fun _ =>
    (waitWhile_keeps ((bit_keeps hinv 9).bind fun _ => .pure _) fuel).bind fun _ =>
      (assertBit_keeps hinv ptr 4).bind fun _ => waitWhile_keeps (bit_keeps hinv 4) fuel

theorem isEnabled_keeps : Keeps inv (isEnabled xhc) := by
  refine (bit_keeps hinv 9).bind fun pp => ?_
  cases pp with
  | false => exact .pure _
  | true =>
    refine (bit_keeps hinv 0).bind fun ccs => ?_
    cases ccs with
    | false => exact .pure _
    | true =>
      refine (bit_keeps hinv 1).bind fun ped => ?_
      cases ped with
      | false => exact .pure _
      | true => exact (bit_keeps hinv 4).bind fun _ => .pure _

theorem portSpeed_keeps : Keeps inv (portSpeed xhc) :=
  (value_keeps hinv).bind fun _ => .pure _

theorem maxPacketSize_keeps : Keeps inv (maxPacketSize xhc) := by
  refine (portSpeed_keeps hinv).bind fun mode => ?_
  cases mode with
  | unknown => exact .throw _
  | fullSpeed => exact .pure _
  | lowSpeed => exact .pure _
  | highSpeed => exact .pure _
  | superSpeed => exact .pure _

end PortScEntry

open PciXhciDriver

structure Untouched (s₀ s : DeviceInit) : Prop where
  dcbaa : s.dcbaa = s₀.dcbaa
  commandRing : s.commandRing = s₀.commandRing
  commands : s.commands = s₀.commands
  outputContexts : s.outputContexts = s₀.outputContexts

theorem Untouched.registers (s₀ s : DeviceInit) (n : Nat) (w : List (BitVec 64 × BitVec 32))
    (h : Untouched s₀ s) : Untouched s₀ { s with reads := n, writes := w } :=
  ⟨h.dcbaa, h.commandRing, h.commands, h.outputContexts⟩

theorem pushCommand_ok {s : DeviceInit} (h : CommandRing.push cmd s.commandRing = .ok ptr ring) :
    pushCommand cmd s =
      .ok ptr { s with commandRing := ring, commands := s.commands ++ [cmd] } := by
  rw [pushCommand, h]

theorem pushCommand_error {s : DeviceInit}
    (h : CommandRing.push cmd s.commandRing = .error e ring) :
    pushCommand cmd s = .error e { s with commandRing := ring } := by
  rw [pushCommand, h]

theorem notifyXhc_ok (hsetup : setupXhcRegisters bar0 capRegs = .ok xhc.regs) (s : DeviceInit) :
    DeviceInit.onRegisters xhc.regs.notifyXhc s =
      .ok () { s with writes := s.writes ++ [(Doorbell.addr bar0 capRegs 0, 0)] } := by
  rw [DeviceInit.onRegisters, XhcRegisters.notifyXhc_eq hsetup]

theorem sendCommand_ok {s : DeviceInit} (hsetup : setupXhcRegisters bar0 capRegs = .ok xhc.regs)
    (h : CommandRing.push cmd s.commandRing = .ok ptr ring) :
    sendCommand xhc cmd s = .ok (xhc.answers s.commands.length)
      { s with
        commandRing := ring
        commands := s.commands ++ [cmd]
        writes := s.writes ++ [(Doorbell.addr bar0 capRegs 0, 0)] } := by
  have hlen : (s.commands ++ [cmd]).length - 1 = s.commands.length := by
    rw [List.length_append, List.length_singleton, Nat.add_sub_cancel]
  rw [sendCommand, bind_of_ok (pushCommand_ok h), bind_of_ok (notifyXhc_ok hsetup _), get_bind,
    lastAnswer]
  dsimp only
  rw [hlen]
  rfl

theorem sendCommand_error {s : DeviceInit}
    (h : CommandRing.push cmd s.commandRing = .error e ring) :
    sendCommand xhc cmd s = .error e { s with commandRing := ring } :=
  bind_of_error (pushCommand_error h)

theorem sendCommand_ends (hsetup : setupXhcRegisters bar0 capRegs = .ok xhc.regs)
    (cmd : GenericTrbEntry) (s : DeviceInit) : Ends (sendCommand xhc cmd) s
      (fun trb s' => trb = xhc.answers s.commands.length ∧ s'.outputContexts = s.outputContexts)
      fun _ s' => s'.outputContexts = s.outputContexts := by
  rw [Ends]
  cases h : CommandRing.push cmd s.commandRing with
  | ok ptr ring =>
    rw [sendCommand_ok hsetup h]
    exact ⟨rfl, rfl⟩
  | error e ring =>
    rw [sendCommand_error h]

theorem initPort_ready {s : DeviceInit} (hsetup : setupXhcRegisters bar0 capRegs = .ok xhc.regs)
    (h : PortReady xhc fuel port s) :
    ∃ s', initPort xhc fuel port s = .ok (xhc.answers s.commands.length).slot s' ∧
      s'.commands.length = s.commands.length + 1 ∧ s'.outputContexts = s.outputContexts := by
  obtain ⟨portsc, s₁, s₂, cmd, ptr, ring, hport, hreset, henabled, hcmd, hpush⟩ := h
  have hregisters := Untouched.registers s
  have h₁ := (PortScEntry.resetPort_keeps hregisters _ _ s ⟨rfl, rfl, rfl, rfl⟩).of_ok hreset
  have h₂ := (PortScEntry.isEnabled_keeps hregisters _ h₁).of_ok henabled
  rw [← h₂.commandRing] at hpush
  have hrun : initPort xhc fuel port s = .ok (xhc.answers s₂.commands.length).slot
      { s₂ with
        commandRing := ring
        commands := s₂.commands ++ [cmd]
        writes := s₂.writes ++ [(Doorbell.addr bar0 capRegs 0, 0)] } := by
    rw [initPort, hport]
    dsimp only
    rw [bind_of_ok hreset, bind_of_ok henabled]
    refine (ofExcept_bind hcmd).trans ((bind_of_ok (sendCommand_ok hsetup hpush)).trans ?_)
    rw [GenericTrbEntry.slotId_eq]
    rfl
  rw [h₂.commands] at hrun
  refine ⟨_, hrun, ?_, h₂.outputContexts⟩
  rw [List.length_append, List.length_singleton]

theorem initPort_not_ready {s : DeviceInit} (h : ¬PortReady xhc fuel port s) :
    ∃ e s', initPort xhc fuel port s = .error e s' ∧ s'.commands = s.commands ∧
      s'.outputContexts = s.outputContexts := by
  have hregisters := Untouched.registers s
  rw [initPort]
  cases hport : xhc.regs.portsc.get port with
  | none => exact ⟨_, _, rfl, rfl, rfl⟩
  | some portsc =>
    have hkeeps₁ : Keeps (Untouched s) (PortScEntry.resetPort xhc fuel portsc) :=
      PortScEntry.resetPort_keeps hregisters fuel portsc
    have hreset₁ := hkeeps₁ s ⟨rfl, rfl, rfl, rfl⟩
    dsimp only
    cases hreset : PortScEntry.resetPort xhc fuel portsc s with
    | error e s₁ =>
      have h₁ := hreset₁.of_error hreset
      exact ⟨e, s₁, bind_of_error hreset, h₁.commands, h₁.outputContexts⟩
    | ok u s₁ =>
      have h₁ := hreset₁.of_ok hreset
      have hkeeps₂ : Keeps (Untouched s) (PortScEntry.isEnabled xhc) :=
        PortScEntry.isEnabled_keeps hregisters
      rw [bind_of_ok hreset]
      cases henabled : PortScEntry.isEnabled xhc s₁ with
      | error e s₂ =>
        have h₂ := (hkeeps₂ s₁ h₁).of_error henabled
        exact ⟨e, s₂, bind_of_error henabled, h₂.commands, h₂.outputContexts⟩
      | ok enabled s₂ =>
        have h₂ := (hkeeps₂ s₁ h₁).of_ok henabled
        rw [bind_of_ok henabled]
        cases enabled with
        | false => exact ⟨_, s₂, rfl, h₂.commands, h₂.outputContexts⟩
        | true =>
          cases hcmd : GenericTrbEntry.cmdEnableSlot with
          | error e => exact ⟨e, s₂, rfl, h₂.commands, h₂.outputContexts⟩
          | ok cmd =>
            cases hpush : CommandRing.push cmd s₂.commandRing with
            | ok ptr ring =>
              rw [h₂.commandRing] at hpush
              exact absurd ⟨portsc, s₁, s₂, cmd, ptr, ring, hport, hreset, henabled, hcmd, hpush⟩ h
            | error e ring =>
              refine ⟨e, { s₂ with commandRing := ring }, ?_, h₂.commands, h₂.outputContexts⟩
              exact (ofExcept_bind rfl).trans (bind_of_error (sendCommand_error hpush))

theorem addressDevice_ends (hsetup : setupXhcRegisters bar0 capRegs = .ok xhc.regs)
    (port : Nat) (slot : BitVec 8) (s : DeviceInit) : Ends (addressDevice xhc port slot) s
      (fun _ s' => s'.outputContexts = s.outputContexts ++ [slot] ∧
        (xhc.answers s.commands.length).Succeeded)
      fun _ s' => s'.outputContexts = s.outputContexts ++ [slot] := by
  let inv : DeviceInit → Prop := fun s' =>
    s'.outputContexts = s.outputContexts ++ [slot] ∧ s'.commands = s.commands
  have hregisters : ∀ s n w, inv s → inv { s with reads := n, writes := w } := fun _ _ _ h => h
  have hfails : ∀ (e : Fault) s', inv s' → s'.outputContexts = s.outputContexts ++ [slot] :=
    fun _ _ h => h.1
  have hinstall : Ends (setOutputContextForSlot slot xhc.outputContext) s (fun _ => inv)
      fun _ => inv := by
    refine Ends.bind (Ends.modify ?_)
    refine Ends.bind (Ends.get ?_)
    exact Ends.bind (Ends.ofExcept_cases (fun _ _ => Ends.set ⟨rfl, rfl⟩) fun _ _ => ⟨rfl, rfl⟩)
  refine (hinstall.mono (fun _ _ h => h) hfails).seq fun _ s₁ h₁ => ?_
  refine (Keeps.ofExcept _).seq h₁ hfails fun inputContext s₂ h₂ => ?_
  cases xhc.regs.portsc.get port with
  | none => exact Ends.throw h₂.1
  | some _ =>
    refine (PortScEntry.portSpeed_keeps hregisters).seq h₂ hfails fun mode s₃ h₃ => ?_
    refine (Keeps.ofExcept _).seq h₃ hfails fun inputContext s₄ h₄ => ?_
    refine (Keeps.ofExcept _).seq h₄ hfails fun ctrlEpRing s₅ h₅ => ?_
    refine (PortScEntry.maxPacketSize_keeps hregisters).seq h₅ hfails fun size s₆ h₆ => ?_
    refine (Keeps.ofExcept _).seq h₆ hfails fun epCtx s₇ h₇ => ?_
    refine (Keeps.ofExcept _).seq h₇ hfails fun inputContext s₈ h₈ => ?_
    refine Keeps.seq (Keeps.modify fun _ h => h) h₈ hfails fun _ s₉ h₉ => ?_
    refine (Keeps.ofExcept _).seq h₉ hfails fun cmd s₁₀ h₁₀ => ?_
    refine ((sendCommand_ends hsetup cmd s₁₀).mono (fun _ _ h => h) fun _ _ h => ?_).seq
      fun trb s₁₁ h₁₁ => ?_
    · exact h.trans h₁₀.1
    · obtain ⟨rfl, hcontexts⟩ := h₁₁
      rw [h₁₀.2]
      refine Ends.bind (Ends.ofExcept_cases (fun _ hok => Ends.pure ⟨hcontexts.trans h₁₀.1, ?_⟩)
        fun _ _ => hcontexts.trans h₁₀.1)
      exact (GenericTrbEntry.cmdResultOk_iff _).1 hok

/-- The slot id is taken out of any answer, so it has to come from a good one. -/
theorem initDevice_proceeds_iff (hsetup : setupXhcRegisters bar0 capRegs = .ok xhc.regs)
    (fuel port : Nat) (dcbaa : DeviceContextBaseAddressArray) (ring : CommandRing) :
    ProceedsOnSuccess xhc fuel port (.start dcbaa ring) ↔
      (PortReady xhc fuel port (.start dcbaa ring) →
        (xhc.answers 0).Succeeded ∧ (xhc.answers 0).slot ≠ 0) := by
  by_cases hready : PortReady xhc fuel port (.start dcbaa ring)
  · obtain ⟨s₁, hinit, hcommands, hcontexts⟩ := initPort_ready hsetup hready
    have hrun : initDevice xhc fuel port (.start dcbaa ring) =
        addressDevice xhc port (xhc.answers 0).slot s₁ := bind_of_ok hinit
    have haddress := addressDevice_ends hsetup port (xhc.answers 0).slot s₁
    rw [hcontexts, hcommands] at haddress
    have hend : (endState (initDevice xhc fuel port) (.start dcbaa ring)).outputContexts =
        [(xhc.answers 0).slot] := by
      rw [endState, hrun]
      exact (haddress.mono (fun _ _ h => h.1) fun _ _ h => h).endState
    constructor
    · intro h _
      have hused := h.used (.inl (by rw [hend]; exact List.cons_ne_nil _ _))
      have hrange := (h.inRange _ (by rw [hend]; exact List.mem_singleton_self _)).1
      refine ⟨hused, fun hzero => ?_⟩
      rw [hzero] at hrange
      exact absurd hrange (by decide)
    · intro h
      obtain ⟨hok, hslot⟩ := h hready
      constructor
      case used => exact fun _ => hok
      case refused => exact fun _ hnot => absurd hok hnot
      case inRange =>
        intro slot hmem
        rw [hend, List.mem_singleton] at hmem
        have hlt := slot.isLt
        subst hmem
        bv_omega
      case returns =>
        intro ctrlEpRing s' hret
        rw [hrun] at hret
        exact ⟨hok, (haddress.of_ok hret).2⟩
  · obtain ⟨e, s₁, hinit, hcommands, hcontexts⟩ := initPort_not_ready hready
    have hrun : initDevice xhc fuel port (.start dcbaa ring) = .error e s₁ := bind_of_error hinit
    have hend : endState (initDevice xhc fuel port) (.start dcbaa ring) = s₁ := by
      rw [endState, hrun]
    refine iff_of_true ?_ fun h => absurd h hready
    constructor
    case used =>
      rw [hend, hcommands, hcontexts]
      rintro (h | ⟨cmd, hcmd, _⟩)
      · exact absurd rfl h
      · cases hcmd
    case refused =>
      rw [hend]
      exact fun h => absurd hcommands h
    case inRange =>
      rw [hend, hcontexts]
      exact List.forall_mem_nil _
    case returns =>
      intro ctrlEpRing s' hret
      rw [hrun] at hret
      cases hret

end

def XhcRegisters.typical : XhcRegisters where
  capRegs := .typical
  opRegs := 0xfe000040
  rtRegs := 0xfe001000
  portsc := ⟨(List.range' 1 8).map fun port => 0xfe000440 + BitVec.ofNat 64 (4 * ((port - 1) * 4))⟩
  doorbellRegs := (List.range 9).map fun i => ⟨0xfe003000 + BitVec.ofNat 64 (4 * i)⟩

def XhcDevice.typical (answer : GenericTrbEntry) : XhcDevice where
  regs := .typical
  readings _ := 0xe03
  answers _ := answer
  outputContext := 0x10000
  inputContext := 0x11000
  ctrlEpRing := 0x12000
  aligned := by decide

def DeviceInit.typical : DeviceInit := .start (.new 0) (.fresh 0x20000 (by decide))

theorem initDevice_proceeds_iff_slot_one :
    ProceedsOnSuccess (.typical ⟨0, 0x01000000, 0x01008400⟩) 8 1 .typical ↔
      (PortReady (.typical ⟨0, 0x01000000, 0x01008400⟩) 8 1 .typical →
        (⟨0, 0x01000000, 0x01008400⟩ : GenericTrbEntry).Succeeded ∧
          (⟨0, 0x01000000, 0x01008400⟩ : GenericTrbEntry).slot ≠ 0) := by
  have hsetup : PciXhciDriver.setupXhcRegisters 0xfe000000 .typical =
    .ok (XhcDevice.typical ⟨0, 0x01000000, 0x01008400⟩).regs := rfl
  exact initDevice_proceeds_iff hsetup 8 1 (.new 0) (.fresh 0x20000 (by decide))

/-- The controller has no slot left: completion code 9 and slot id 0. -/
theorem no_slots_available : ∃ s',
    PciXhciDriver.initDevice (.typical ⟨0, 0x09000000, 0x8400⟩) 8 1 .typical = .error .overflow s' ∧
      s'.outputContexts = [0] ∧
      ¬ProceedsOnSuccess (.typical ⟨0, 0x09000000, 0x8400⟩) 8 1 .typical := by
  refine ⟨_, rfl, rfl, fun h => ?_⟩
  have hrange := (h.inRange 0 (List.mem_singleton_self _)).1
  exact absurd hrange (by decide)

end Wasabi
