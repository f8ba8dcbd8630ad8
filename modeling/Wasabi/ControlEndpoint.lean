import Wasabi.ControlDelivery
import Wasabi.DeviceInit
import Wasabi.EndpointFields
import Wasabi.SlotFields

namespace Wasabi
set_option autoImplicit true

/-- The controller reads its start on an endpoint from the pointer and the cycle state in its
context. -/
def Consumer.startEndpoint (ep : EndpointContext) (base : Nat) : Consumer :=
  ⟨Fin.ofNat 16 ((ep.trDequeuePtr.toNat / 16 * 16 - base) / 16), ep.trDequeuePtr.getLsbD 0⟩

def RingSystem.ofEndpoint (ring : CommandRing) (ep : EndpointContext) : RingSystem :=
  ⟨ring, .idle, .startEndpoint ep ring.ring.base, [], []⟩

structure IsControlEndpoint (size : BitVec 16) (ptr : BitVec 64) (ep : EndpointContext) :
    Prop where
  type : typeField.get (ep.data.get 1) = 4
  count : countField.get (ep.data.get 1) = 3
  size : sizeField.get (ep.data.get 1) = size
  cycle : cycleField.get ep.trDequeuePtr = 1
  pointer : pointerField.get ep.trDequeuePtr = ptr.extractLsb' 4 60
  average : ep.averageTrbLength = 8

/-- What the driver tells of a device behind `port`. -/
structure DescribesDevice (port : Nat) (size : BitVec 16) (ring : CommandRing)
    (ctx : InputContext) : Prop where
  added : ctx.inputCtrlCtx = ⟨0, 0b11⟩
  range : 0 < port ∧ port < 256
  port : portField.get (ctx.deviceCtx.slotCtx.get 1) = BitVec.ofNat 8 port
  entries : dciField.get (ctx.deviceCtx.slotCtx.get 0) = 1
  control : IsControlEndpoint size (BitVec.ofNat 64 ring.ringPhysAddr) (ctx.deviceCtx.epCtx.get 0)
  others : ∀ i, i ≠ 0 → ctx.deviceCtx.epCtx.get i = .new

structure IsAddressDevice (inputContext : BitVec 64) (slot : BitVec 8) (cmd : GenericTrbEntry) :
    Prop where
  kind : cmd.kind = TrbType.addressDeviceCommand.value
  data : cmd.data = inputContext
  slot : cmd.slot = slot

/-- A controller that starts where the context says takes what is pushed on the ring in order, and
every request whole. -/
structure ServesControl (ring : CommandRing) (ep : EndpointContext) : Prop where
  inOrder : ∀ s, Runs (RingStep 14) (.ofEndpoint ring ep) s →
    s.taken.map seen <+: s.pushed.map seen
  whole : ∀ s, Runs (RingStep 14) (.ofEndpoint ring ep) s → s.pc = .idle →
    s.unconsumed + 3 ≤ 14 → ∀ (r : ControlRequest) n event slot, ∃ t u, Runs (RingStep 14) s t ∧
      t.ring = endState (r.run (ringPort n event) slot) s.ring ∧ Runs (RingStep 14) t u ∧
      u.taken.map (·.2.contents) =
        s.pushed.map (·.2.contents) ++ (r.pushed n event slot).map GenericTrbEntry.contents

/-- The Address Device command for a device has been posted, with its contexts in place. -/
structure Addressed (xhc : XhcDevice) (port : Nat) (slot : BitVec 8) (ring : CommandRing)
    (s t : DeviceInit) : Prop where
  posted : ∃ cmd, t.commands = s.commands ++ [cmd] ∧ IsAddressDevice xhc.inputContext slot cmd
  output : s.dcbaa.setOutputContext slot xhc.outputContext = .ok t.dcbaa
  input : ∃ ctx size u u', t.inputContext = some ctx ∧ DescribesDevice port size ring ctx ∧
    u.reads = s.reads + 1 ∧ PortScEntry.maxPacketSize xhc u = .ok size u' ∧
    ServesControl ring (ctx.deviceCtx.epCtx.get 0)

section
variable {size : BitVec 16} {ptr : BitVec 64} {ep : EndpointContext}

theorem newControlEndpoint_eq (size : BitVec 16) (ptr : BitVec 64) :
    ∃ ep, EndpointContext.newControlEndpoint size ptr = .ok ep ∧ IsControlEndpoint size ptr ep := by
  have hthree : EndpointCall.Accepted (.errorCount 3) := by
    change (3 : BitVec 32) < 4
    decide
  obtain ⟨ep₁, hok₁, h₁⟩ := EndpointCall.call_ok (.epType .control) .new trivial
  obtain ⟨ep₂, hok₂, h₂⟩ := EndpointCall.call_ok (.dequeueCycleState true) ep₁ trivial
  obtain ⟨ep₃, hok₃, h₃⟩ := EndpointCall.call_ok (.errorCount 3) ep₂ hthree
  obtain ⟨ep₄, hok₄, h₄⟩ := EndpointCall.call_ok (.maxPacketSize size) ep₃ trivial
  obtain ⟨ep₅, hok₅, h₅⟩ := EndpointCall.call_ok (.ringDequeuePointer ptr) ep₄ trivial
  cases hok₄
  have hold : sizeField.get (ep₃.data.get 1) = 0 := by
    rw [h₃.dword, h₂.dword, h₁.dword, size_kept _ _ rfl, size_kept _ _ rfl, size_kept _ _ rfl]
    rfl
  refine ⟨{ ep₅ with averageTrbLength := 8 }, ?_, ?_, ?_, ?_, ?_, ?_, rfl⟩
  · rw [EndpointContext.newControlEndpoint]
    change EndpointContext.new.setEpType .control = _ at hok₁
    change ep₁.setDequeueCycleState true = _ at hok₂
    change ep₂.setErrorCount 3 = _ at hok₃
    change (ep₃.setMaxPacketSize size).setRingDequeuePointer ptr = _ at hok₅
    rw [hok₁, ok_bind, hok₂, ok_bind, hok₃, ok_bind]
    dsimp only
    rw [hok₅]
    rfl
  all_goals dsimp only
  · rw [h₅.dword, h₄.dword, h₃.dword, h₂.dword, h₁.dword]
    simp only [type_dword]
    rfl
  · rw [h₅.dword, h₄.dword, h₃.dword, h₂.dword, h₁.dword]
    simp only [count_dword]
    rfl
  · rw [h₅.dword, size_kept _ _ rfl, h₄.dword]
    apply BitVec.eq_of_getLsbD_eq
    intro i hi
    have hbit : (ep₃.data.get 1).getLsbD (16 + i) = false := by
      have hget := BitField.getLsbD_get (f := sizeField) (x := ep₃.data.get 1) hi
      rw [hold] at hget
      exact hget.symm.trans (BitVec.getLsbD_zero)
    rw [EndpointCall.dword, size_bit _ _ hi, hbit, Bool.false_or, ite_self]
  · rw [h₅.pointerWord, h₄.pointerWord, h₃.pointerWord, h₂.pointerWord, h₁.pointerWord]
    simp only [cycle_pointerWord]
    rfl
  · rw [h₅.pointerWord, h₄.pointerWord, h₃.pointerWord, h₂.pointerWord, h₁.pointerWord]
    simp only [pointer_pointerWord]
    rfl

theorem startEndpoint_eq (h : IsControlEndpoint size ptr ep) (hbase : ptr.toNat % 4096 = 0) :
    Consumer.startEndpoint ep ptr.toNat = ⟨0, true⟩ := by
  have hcycle : ep.trDequeuePtr.getLsbD 0 = true := by
    have hget := BitField.getLsbD_get (f := cycleField) (x := ep.trDequeuePtr) (i := 0) (by decide)
    rw [h.cycle] at hget
    exact hget.symm
  have hpointer : ep.trDequeuePtr.toNat / 16 = ptr.toNat / 16 := by
    have htoNat := congrArg BitVec.toNat h.pointer
    have hlt := ep.trDequeuePtr.isLt
    have hlt' := ptr.isLt
    rw [BitField.get, BitVec.extractLsb'_toNat, BitVec.extractLsb'_toNat,
      Nat.shiftRight_eq_div_pow, Nat.shiftRight_eq_div_pow] at htoNat
    dsimp only at htoNat
    omega
  have hzero : (ptr.toNat / 16 * 16 - ptr.toNat) / 16 = 0 := by omega
  rw [Consumer.startEndpoint, hcycle, hpointer, hzero]
  rfl

theorem servesControl {ring : CommandRing} (hring : CommandRing.default base hb = .ok ring)
    (hlt : base < 2 ^ 64) (h : IsControlEndpoint size (BitVec.ofNat 64 ring.ringPhysAddr) ep) :
    ServesControl ring ep := by
  have hfresh : ring = .fresh base hb :=
    (Except.ok.inj ((CommandRing.default_eq base hb).symm.trans hring)).symm
  have hbase : ring.ringPhysAddr = base := by
    rw [hfresh]
    rfl
  have hptr : (BitVec.ofNat 64 ring.ringPhysAddr).toNat = ring.ring.base := by
    rw [BitVec.toNat_ofNat, Nat.mod_eq_of_lt (by omega)]
    rfl
  have haligned : ring.ring.base % 4096 = 0 := ring.ring.aligned
  have hstart := startEndpoint_eq h (by rw [hptr]; exact haligned)
  rw [hptr] at hstart
  have hinit : RingSystem.ofEndpoint ring ep = .init ring := by
    rw [RingSystem.ofEndpoint, hstart, RingSystem.init, Consumer.start_eq]
  constructor <;> rw [hinit] <;> intro s hs
  case inOrder =>
    obtain ⟨w, v, h⟩ := RingInv.of_runs (by omega) hring hs
    rw [h.taken_eq]
    exact List.take_prefix _ _
  case whole =>
    intro hpc hroom r n event slot
    exact control_request_delivers hring hs hpc hroom r

end

abbrev slotField : BitField 32 := ⟨24, 8, by decide⟩

theorem cmdAddressDevice_eq (inputContext : BitVec 64) (slot : BitVec 8) :
    ∃ cmd, GenericTrbEntry.cmdAddressDevice inputContext slot = .ok cmd ∧
      IsAddressDevice inputContext slot cmd := by
  have hlt : (slot.setWidth 32).toNat < 2 ^ slotField.width := by
    rw [BitVec.toNat_setWidth, Nat.mod_eq_of_lt (by omega)]
    exact slot.isLt
  have hwrite := BitField.writeBits_write (f := slotField) (x := 11#32 <<< 10)
    (by decide) (by decide) hlt
  have hkind : ∀ slot : BitVec 8, slotField.write (slot.setWidth 32) (11#32 <<< 10) >>> 10 &&&
      0x3f = TrbType.addressDeviceCommand.value := by decide +kernel
  refine ⟨⟨inputContext, 0, slotField.write (slot.setWidth 32) (11#32 <<< 10)⟩, ?_, ?_⟩
  · have hdefault : GenericTrbEntry.default.setTrbType .addressDeviceCommand =
        .ok ⟨0, 0, 11#32 <<< 10⟩ := by decide
    rw [GenericTrbEntry.cmdAddressDevice, hdefault, ok_bind, GenericTrbEntry.setSlotId]
    dsimp only
    rw [hwrite]
    rfl
  · refine ⟨hkind slot, rfl, ?_⟩
    exact BitField.get_write.trans (BitVec.setWidth_setWidth_of_le _ (by decide))

theorem inputContext_ok (h : PciXhciDriver.inputContext port = .ok ctx) :
    (0 < port ∧ port < 256) ∧ ctx.inputCtrlCtx = ⟨0, 0b11⟩ ∧
      portField.get (ctx.deviceCtx.slotCtx.get 1) = BitVec.ofNat 8 port ∧
      dciField.get (ctx.deviceCtx.slotCtx.get 0) = 1 ∧
      ctx.deviceCtx.epCtx = .replicate 31 .new := by
  have hslot : InputControlContext.default.addContext 0 = .ok ⟨0, 1⟩ := rfl
  have hboth : (⟨0, 1⟩ : InputControlContext).addContext 1 = .ok ⟨0, 0b11⟩ := rfl
  rw [PciXhciDriver.inputContext, hslot, ok_bind, hboth, ok_bind, InputContext.setInputCtrlCtx,
    ok_bind, InputContext.setRootHubPortNumber] at h
  by_cases hport : 0 < port ∧ port < 256
  · obtain ⟨ctx₁, hok₁, h₁⟩ := SlotCall.call_ok (.rootHubPortNumber port) .default hport
    have hone : SlotCall.Accepted (.lastValidDci 1) := Nat.le_of_ble_eq_true rfl
    obtain ⟨ctx₂, hok₂, h₂⟩ := SlotCall.call_ok (.lastValidDci 1) ctx₁ hone
    change DeviceContext.default.setRootHubPortNumber port = _ at hok₁
    change ctx₁.setLastValidDci 1 = _ at hok₂
    dsimp only [InputContext.default] at h
    rw [hok₁, ok_bind] at h
    change (do return (⟨⟨0, 0b11⟩, ← ctx₁.setLastValidDci 1⟩ : InputContext)) = _ at h
    rw [hok₂] at h
    cases h
    refine ⟨hport, rfl, ?_, ?_, h₂.endpoints.trans h₁.endpoints⟩
    · dsimp only
      rw [h₂.dword₁, port_dword₁, h₁.dword₁, port_dword₁, SlotCall.port?, if_pos hport]
      rfl
    · dsimp only
      rw [h₂.dword₀, dci_dword₀]
      rfl
  · obtain ⟨msg, herr⟩ := SlotCall.call_error (.rootHubPortNumber port) .default hport
    change DeviceContext.default.setRootHubPortNumber port = _ at herr
    dsimp only [InputContext.default] at h
    rw [herr] at h
    cases h

theorem setPortSpeed_ok {ctx ctx' : InputContext} (h : ctx.setPortSpeed mode = .ok ctx') :
    ctx'.inputCtrlCtx = ctx.inputCtrlCtx ∧ ctx'.deviceCtx.epCtx = ctx.deviceCtx.epCtx ∧
      portField.get (ctx'.deviceCtx.slotCtx.get 1) = portField.get (ctx.deviceCtx.slotCtx.get 1) ∧
      dciField.get (ctx'.deviceCtx.slotCtx.get 0) = dciField.get (ctx.deviceCtx.slotCtx.get 0) := by
  rw [InputContext.setPortSpeed] at h
  by_cases hmode : SlotCall.Accepted (.portSpeed mode)
  · obtain ⟨ctx₁, hok₁, h₁⟩ := SlotCall.call_ok (.portSpeed mode) ctx.deviceCtx hmode
    change ctx.deviceCtx.setPortSpeed mode = _ at hok₁
    rw [hok₁] at h
    cases h
    refine ⟨rfl, h₁.endpoints, ?_, ?_⟩
    · dsimp only
      rw [h₁.dword₁, port_dword₁]
      rfl
    · dsimp only
      rw [h₁.dword₀, dci_dword₀]
      rfl
  · obtain ⟨msg, herr⟩ := SlotCall.call_error (.portSpeed mode) ctx.deviceCtx hmode
    change ctx.deviceCtx.setPortSpeed mode = _ at herr
    rw [herr] at h
    cases h

theorem describesDevice {c₀ c₁ ctx : InputContext} {ring : CommandRing}
    (hinput : PciXhciDriver.inputContext port = .ok c₀) (hspeed : c₀.setPortSpeed mode = .ok c₁)
    (hep : c₁.setEpCtx 1 ep = .ok ctx)
    (hcontrol : IsControlEndpoint size (BitVec.ofNat 64 ring.ringPhysAddr) ep) :
    DescribesDevice port size ring ctx ∧ ctx.deviceCtx.epCtx.get 0 = ep := by
  obtain ⟨hrange, hadded, hport, hdci, hnew⟩ := inputContext_ok hinput
  obtain ⟨hadded₁, hep₁, hport₁, hdci₁⟩ := setPortSpeed_ok hspeed
  cases hep
  have hzero : (c₁.deviceCtx.epCtx.set 0 ep).get 0 = ep := Vector.getElem_set_self (by decide)
  refine ⟨⟨hadded₁.trans hadded, hrange, hport₁.trans hport, hdci₁.trans hdci, ?_, ?_⟩, hzero⟩
  · dsimp only
    rw [hzero]
    exact hcontrol
  · intro i hi
    have hne : (0 : Nat) ≠ i.val := fun h => hi (Fin.ext h.symm)
    have hsame : (c₁.deviceCtx.epCtx.set 0 ep).get i = c₁.deviceCtx.epCtx.get i :=
      Vector.getElem_set_ne (by decide) i.isLt hne
    dsimp only
    rw [hsame, hep₁, hnew]
    exact Vector.getElem_replicate i.isLt

section
variable {xhc : XhcDevice} {s : DeviceInit}

theorem PortScEntry.portSpeed_reads (s : DeviceInit) {fails : Fault → DeviceInit → Prop} :
    Ends (portSpeed xhc) s (fun _ t => t = { s with reads := s.reads + 1 }) fails :=
  rfl

theorem sendCommand_posts (cmd : GenericTrbEntry) (s : DeviceInit) :
    Ends (sendCommand xhc cmd) s
      (fun trb t => trb = xhc.answers s.commands.length ∧ t.commands = s.commands ++ [cmd] ∧
        t.inputContext = s.inputContext ∧ t.dcbaa = s.dcbaa)
      fun _ t => t.commands = s.commands ∨ t.commands = s.commands ++ [cmd] ∧
        t.inputContext = s.inputContext ∧ t.dcbaa = s.dcbaa := by
  have hlen : (s.commands ++ [cmd]).length - 1 = s.commands.length := by
    rw [List.length_append, List.length_singleton, Nat.add_sub_cancel]
  refine Ends.bind ?_
  cases hpush : CommandRing.push cmd s.commandRing with
  | error e ring =>
    rw [Ends, pushCommand_error hpush]
    exact .inl rfl
  | ok ptr ring =>
    rw [Ends, pushCommand_ok hpush]
    refine Ends.bind ?_
    rw [Ends, DeviceInit.onRegisters]
    dsimp only
    cases xhc.regs.notifyXhc s.writes with
    | error e writes => exact .inr ⟨rfl, rfl, rfl⟩
    | ok u writes =>
      refine Ends.bind (Ends.get (Ends.pure ⟨?_, rfl, rfl, rfl⟩))
      rw [lastAnswer]
      dsimp only
      rw [hlen]

theorem sendCommand_checked {cmd : GenericTrbEntry} {good : DeviceInit → Prop}
    (hgood : ∀ t, t.commands = s.commands ++ [cmd] → t.inputContext = s.inputContext →
      t.dcbaa = s.dcbaa → good t) (a : α) :
    Ends (do
      let trb ← sendCommand xhc cmd
      MonadExcept.ofExcept trb.cmdResultOk
      return a) s
      (fun r t => r = a ∧ good t ∧ (xhc.answers s.commands.length).Succeeded)
      fun _ t => t.commands = s.commands ∨ good t := by
  refine ((sendCommand_posts cmd s).mono (fun _ _ h => h) fun _ t h => ?_).seq fun trb t h => ?_
  · rcases h with h | ⟨hcommands, hctx, hdcbaa⟩
    · exact .inl h
    · exact .inr (hgood t hcommands hctx hdcbaa)
  · obtain ⟨htrb, hcommands, hctx, hdcbaa⟩ := h
    have hposted := hgood t hcommands hctx hdcbaa
    subst htrb
    refine Ends.bind (Ends.ofExcept_cases (fun _ hok => Ends.pure ⟨rfl, hposted, ?_⟩)
      fun _ _ => .inr hposted)
    exact (GenericTrbEntry.cmdResultOk_iff _).1 hok

theorem setOutputContextForSlot_installs (slot : BitVec 8) (ptr : BitVec 64) (s : DeviceInit) :
    Ends (setOutputContextForSlot slot ptr) s
      (fun _ t => (t.commands = s.commands ∧ s.dcbaa.setOutputContext slot ptr = .ok t.dcbaa) ∧
        t.reads = s.reads)
      fun _ t => t.commands = s.commands := by
  refine Ends.bind (Ends.modify ?_)
  refine Ends.bind (Ends.get ?_)
  exact Ends.bind (Ends.ofExcept_cases (fun _ hok => Ends.set ⟨⟨rfl, hok⟩, rfl⟩) fun _ _ => rfl)

/-- An address that is assigned: the controller is told of the output context of the slot, and the
input context it is given describes the device and a control endpoint whose ring works. -/
theorem address_device_serves (hlt : xhc.ctrlEpRing < 2 ^ 64) (port : Nat) (slot : BitVec 8)
    (s : DeviceInit) : Ends (PciXhciDriver.addressDevice xhc port slot) s
      (fun ring t => Addressed xhc port slot ring s t ∧
        (xhc.answers s.commands.length).Succeeded)
      fun _ t => t.commands = s.commands ∨ ∃ ring, Addressed xhc port slot ring s t := by
  let inv : DeviceInit → Prop := fun t =>
    t.commands = s.commands ∧ s.dcbaa.setOutputContext slot xhc.outputContext = .ok t.dcbaa
  have hregisters : ∀ t n w, inv t → inv { t with reads := n, writes := w } := fun _ _ _ h => h
  have hfails : ∀ (e : Fault) t, inv t →
      t.commands = s.commands ∨ ∃ ring, Addressed xhc port slot ring s t := fun _ _ h => .inl h.1
  have hinstall := setOutputContextForSlot_installs slot xhc.outputContext s
  refine (hinstall.mono (fun _ _ h => h) fun _ _ h => .inl h).seq fun _ s₁ h₁ => ?_
  refine Ends.bind (Ends.ofExcept_cases (fun c₀ hinput => ?_) fun e _ => hfails e s₁ h₁.1)
  cases xhc.regs.portsc.get port with
  | none => exact Ends.throw (.inl h₁.1.1)
  | some _ =>
    refine (PortScEntry.portSpeed_reads s₁).seq fun mode s₂ h₂ => ?_
    have hinv₂ : inv s₂ := by
      subst h₂
      exact h₁.1
    have hreads : s₂.reads = s.reads + 1 := by
      subst h₂
      exact congrArg (· + 1) h₁.2
    refine Ends.bind (Ends.ofExcept_cases (fun c₁ hspeed => ?_) fun e _ => hfails e s₂ hinv₂)
    refine Ends.bind (Ends.ofExcept_cases (fun ring hring => ?_) fun e _ => hfails e s₂ hinv₂)
    have hkeeps : Ends (PortScEntry.maxPacketSize xhc) s₂ (fun _ => inv) fun _ => inv :=
      PortScEntry.maxPacketSize_keeps hregisters s₂ hinv₂
    refine Ends.bind ?_
    rw [Ends]
    cases hsize : PortScEntry.maxPacketSize xhc s₂ with
    | error e s₃ => exact hfails e s₃ (hkeeps.of_error hsize)
    | ok size s₃ =>
      have hinv₃ : inv s₃ := hkeeps.of_ok hsize
      obtain ⟨ep, hep, hcontrol⟩ := newControlEndpoint_eq size (BitVec.ofNat 64 ring.ringPhysAddr)
      refine Ends.bind (Ends.ofExcept hep ?_)
      refine Ends.bind (Ends.ofExcept_cases (fun ctx hset => ?_) fun e _ => hfails e s₃ hinv₃)
      refine Ends.bind (Ends.modify ?_)
      obtain ⟨cmd, hcmd, haddress⟩ := cmdAddressDevice_eq xhc.inputContext slot
      refine Ends.bind (Ends.ofExcept hcmd ?_)
      have hposted : ∀ t : DeviceInit, t.commands = s₃.commands ++ [cmd] →
          t.inputContext = some ctx → t.dcbaa = s₃.dcbaa →
          Addressed xhc port slot ring s t := by
        intro t hcommands hctx hdcbaa
        obtain ⟨hdescribes, hzero⟩ := describesDevice hinput hspeed hset hcontrol
        refine ⟨⟨cmd, ?_, haddress⟩, ?_, ctx, size, s₂, s₃, hctx, hdescribes, hreads, hsize, ?_⟩
        · rw [hcommands, hinv₃.1]
        · rw [hdcbaa]
          exact hinv₃.2
        · rw [hzero]
          exact servesControl hring hlt hcontrol
      refine (sendCommand_checked hposted ring).mono (fun r t h => ?_) fun _ t h => ?_
      · obtain ⟨hreturned, haddressed, hsucceeded⟩ := h
        subst hreturned
        dsimp only at hsucceeded
        rw [hinv₃.1] at hsucceeded
        exact ⟨haddressed, hsucceeded⟩
      · rcases h with h | haddressed
        · exact .inl (h.trans hinv₃.1)
        · exact .inr ⟨ring, haddressed⟩

theorem address_device_serves_typical :
    Ends (PciXhciDriver.addressDevice (.typical ⟨0, 0x01000000, 0x01008400⟩) 1 1) .typical
      (fun ring t => Addressed (.typical ⟨0, 0x01000000, 0x01008400⟩) 1 1 ring .typical t ∧
        (⟨0, 0x01000000, 0x01008400⟩ : GenericTrbEntry).Succeeded)
      fun _ t => t.commands = [] ∨
        ∃ ring, Addressed (.typical ⟨0, 0x01000000, 0x01008400⟩) 1 1 ring .typical t :=
  address_device_serves (by decide) 1 1 .typical

end

end Wasabi
