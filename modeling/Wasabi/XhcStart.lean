import Wasabi.XhcMemory
import Wasabi.XhcReset

namespace Wasabi
set_option autoImplicit true

/-- What a controller that has been started owns. -/
structure Controller.Started where
  scratchpad : ScratchpadBuffers
  dcbaa : Block
  eventRing : Block
  erst : Block
  commandRing : Block

namespace Controller
variable (hc : HostController)

def alloc (capRegs : CapabilityRegisters) (pagesize : BitVec 32) : BoxM Started := do
  let scratchpad ← ScratchpadBuffers.alloc capRegs pagesize
  let dcbaa ← DeviceContextBaseAddressArray.alloc scratchpad.table.ptr
  let (eventRing, erst) ← EventRing.alloc
  let commandRing ← CommandRing.alloc
  return { scratchpad, dcbaa, eventRing, erst, commandRing }

/-- With `RuntimeRegisters::init_irs` of interrupter 0. -/
def initPrimaryEventRing (this : Started) : XhcM Unit := do
  writeReg .erstSize (1 : BitVec 32)
  writeReg .erdp (BitVec.ofNat 64 this.eventRing.ptr)
  writeReg .erstBase (BitVec.ofNat 64 this.erst.ptr)
  writeReg .management (0 : BitVec 32)

def initSlotsAndContexts (capRegs : CapabilityRegisters) (this : Started) : XhcM Unit := do
  OperationalRegisters.writeNumDeviceSlots hc capRegs.numOfDeviceSlots
  writeReg .dcbaap (BitVec.ofNat 64 this.dcbaa.ptr)

def initCommandRing (this : Started) : XhcM Unit :=
  writeReg .crcr (BitVec.ofNat 64 this.commandRing.ptr ||| 1)

def new (fuel : Nat) (capRegs : CapabilityRegisters) : XhcM Started := do
  OperationalRegisters.resetXhc hc fuel
  let pagesize ← readReg hc .pagesize 32
  let this ← onHeap (alloc capRegs pagesize)
  initPrimaryEventRing this
  initSlotsAndContexts hc capRegs this
  initCommandRing this
  OperationalRegisters.startXhc hc fuel
  return this

end Controller

namespace Controller.Started

/-- What the controller reads and writes once it runs. -/
def blocks (this : Controller.Started) : List Block :=
  [this.commandRing, this.erst, this.eventRing, this.dcbaa] ++
    (this.scratchpad.bufs.items.reverse ++ [this.scratchpad.table])

/-- The structures in memory, as the software takes them to be. -/
structure Prepared (this : Controller.Started) (capRegs : CapabilityRegisters) (s : HeapRun) :
    Prop where
  commandRing : ∃ h, (CommandRing.fresh this.commandRing.ptr h).ring.StoredIn s.heap.mem
  eventRing : ∃ h, (EventRing.new this.eventRing.ptr h).ring.StoredIn s.heap.mem
  segment : readLe s.heap.mem this.erst.ptr 8 = this.eventRing.ptr ∧
    readLe s.heap.mem (this.erst.ptr + 8) 2 = 16
  aligned : 64 ∣ this.dcbaa.ptr
  slots : ∀ i, 1 ≤ i → i < 256 → readLe s.heap.mem (this.dcbaa.ptr + 8 * i) 8 = 0
  scratchpad : readLe s.heap.mem this.dcbaa.ptr 8 = this.scratchpad.table.ptr ∧
    tableEntries s.heap.mem this.scratchpad.table.ptr (max capRegs.numScratchpadBufs 1) =
      this.scratchpad.bufs.items.map (·.ptr)
  live : ∀ b ∈ this.blocks, b ∈ s.live
  apart : this.blocks.Pairwise fun a b => Apart a.ptr a.layout.size b.ptr b.layout.size

structure HandedOver (this : Controller.Started) (capRegs : CapabilityRegisters) (s : XhcStart) :
    Prop extends this.Prepared capRegs s.toHeapRun where
  crcr : s.reg .crcr = some (BitVec.ofNat 64 this.commandRing.ptr ||| 1)
  erdp : s.reg .erdp = some (BitVec.ofNat 64 this.eventRing.ptr)
  erstBase : s.reg .erstBase = some (BitVec.ofNat 64 this.erst.ptr)
  erstSize : s.reg .erstSize = some 1
  dcbaap : s.reg .dcbaap = some (BitVec.ofNat 64 this.dcbaa.ptr)
  config : ∃ v, s.reg .config = some v ∧
    OperationalRegisters.maxSlotsEn v = capRegs.numOfDeviceSlots

end Controller.Started

section
variable {regions : List (Nat × Nat)} {room last : Nat} {s : HeapRun}
  {fails : Fault → HeapRun → Prop} {capRegs : CapabilityRegisters}

/-- The room that the structures of a controller take at most. -/
def Controller.startRoom (capRegs : CapabilityRegisters) (pageSize : Nat) : Nat :=
  ScratchpadBuffers.allocRoom (max capRegs.numScratchpadBufs 1) pageSize + layoutDcbaa.needed +
    3 * layoutPage4k.needed

theorem Controller.alloc_ends {post : Controller.Started → HeapRun → Prop}
    (pagesize : BitVec 32) (h : HeapOwns regions [] room last s)
    (hpost : ∀ this s', this.Prepared capRegs s' → post this s')
    (hillegal : ∀ e s, OperationalRegisters.pageSize pagesize = .error e → fails e s)
    (hfail : ∀ pageSize s, OperationalRegisters.pageSize pagesize = .ok pageSize →
      room < startRoom capRegs pageSize → fails .outOfMemory s) :
    Ends (alloc capRegs pagesize) s post fails := by
  unfold startRoom at hfail
  refine Ends.bind (ScratchpadBuffers.alloc_filled capRegs pagesize h
    (fun scratchpad pageSize _ last₁ s₁ hpageSize hlen hfilled => ?_) hillegal
    fun pageSize s hok hlt => hfail pageSize s hok (by omega))
  replace hfail (s : HeapRun) := hfail pageSize s hpageSize
  have htable : scratchpad.table ∈
      scratchpad.bufs.buf.toList ++ (scratchpad.bufs.items.reverse ++ [scratchpad.table]) := by simp
  refine Ends.bind (DeviceContextBaseAddressArray.alloc_ends hfilled.owns
    (hfilled.owns.ptr_bounds htable).2
    (fun dcbaa last₂ s₂ hdl hdal h₂ hsame₂ hentry hslots => ?_) fun s hlt => hfail s (by omega))
  refine Ends.bind (EventRing.alloc_ends h₂ (fun ring erst last₃ s₃ hral hrl hel h₃ hsame₃ hring
    hbase hsize => ?_) fun s hlt => hfail s (by omega))
  refine Ends.bind (CommandRing.alloc_ends h₃ (fun cmd last₄ s₄ hcal hcl h₄ hsame₄ hcmd =>
    Ends.pure ?_) fun s hlt => hfail s (by omega))
  refine hpost _ s₄ ?_
  have hsub : List.Sublist (cmd :: erst :: ring :: dcbaa ::
      (scratchpad.bufs.items.reverse ++ [scratchpad.table])) (cmd :: erst :: ring :: dcbaa ::
      (scratchpad.bufs.buf.toList ++ (scratchpad.bufs.items.reverse ++ [scratchpad.table]))) :=
    ((((List.sublist_append_right _ _).cons_cons dcbaa).cons_cons ring).cons_cons erst).cons_cons
      cmd
  have hdcbaa : SameOn s₂.heap.mem s₄.heap.mem dcbaa.ptr 2048 := by
    rw [← hdl]
    exact (hsame₃ dcbaa List.mem_cons_self).trans (hsame₄ dcbaa (by simp))
  have herst : SameOn s₃.heap.mem s₄.heap.mem erst.ptr 4096 := by
    have hkept := hsame₄ erst List.mem_cons_self
    rwa [hel] at hkept
  constructor
  case commandRing => exact ⟨hcal, hcmd⟩
  case eventRing =>
    have hkept := hsame₄ ring (by simp)
    rw [hrl] at hkept
    exact ⟨hral, hring.congr hkept⟩
  case segment =>
    dsimp only
    rw [readLe_congr (herst.mono (Nat.le_refl _) (by omega)),
      readLe_congr (herst.mono (by omega) (by omega))]
    exact ⟨hbase, hsize⟩
  case aligned => exact hdal
  case slots =>
    intro i hpos hi
    dsimp only
    rw [readLe_congr (hdcbaa.mono (by omega) (by omega)), hslots i hpos hi]
  case scratchpad =>
    have hkept := ((hsame₂ scratchpad.table htable).trans
      (hsame₃ scratchpad.table (List.mem_cons_of_mem _ htable))).trans
      (hsame₄ scratchpad.table (by simp))
    rw [hfilled.table_size] at hkept
    dsimp only
    rw [readLe_congr (hdcbaa.mono (Nat.le_refl _) (by omega)), tableEntries_congr hkept, ← hlen]
    exact ⟨hentry, hfilled.entries⟩
  case live => exact fun b hb => h₄.live b (hsub.subset hb)
  case apart =>
    obtain ⟨cs, hinv, _⟩ := h₄.inv
    exact (hinv.sublist hsub).blocks_apart

end

theorem Controller.Started.HandedOver.launched {this : Controller.Started} {s t : XhcStart}
    (h : this.HandedOver capRegs s) (ht : Launched s t) : this.HandedOver capRegs t := by
  refine ⟨ht.heap ▸ h.toPrepared, ?_, ?_, ?_, ?_, ?_, ?_⟩
  · rw [ht.regs .crcr (by decide), h.crcr]
  · rw [ht.regs .erdp (by decide), h.erdp]
  · rw [ht.regs .erstBase (by decide), h.erstBase]
  · rw [ht.regs .erstSize (by decide), h.erstSize]
  · rw [ht.regs .dcbaap (by decide), h.dcbaap]
  · rw [ht.regs .config (by decide)]
    exact h.config

def XhcStart.PageSize (s : XhcStart) (r : Except Fault Nat) : Prop :=
  ∃ v, lastOf (RegAccess.seen .pagesize) s.accesses = some v ∧
    OperationalRegisters.pageSize (v.setWidth 32) = r

/-- How a start on a heap may fail: before Run/Stop is set, because the controller does not come out
of its halt or its reset, PAGESIZE is illegal or the heap has no room, or waiting for the controller
to run, with everything handed over. -/
inductive StartFails (heap : Heap) (capRegs : CapabilityRegisters) : Fault → XhcStart → Prop where
  | stuck : Unstarted s → StartFails heap capRegs .diverged s
  | illegal : Unstarted s → s.PageSize (.error e) → StartFails heap capRegs e s
  | noRoom {size : Nat} : Unstarted s → s.PageSize (.ok size) →
      ¬heap.Roomy (Controller.startRoom capRegs size) → StartFails heap capRegs .outOfMemory s
  | waiting (this : Controller.Started) : xhcRules.phase s.accesses = some .running →
      this.HandedOver capRegs s → StartFails heap capRegs .diverged s

theorem Controller.program_ends {this : Controller.Started} {s : XhcStart} {hc : HostController}
    {rest : XhcM α} {post : α → XhcStart → Prop} {fails : Fault → XhcStart → Prop}
    (h : StartInv (.ready []) s) (hprep : this.Prepared capRegs s.toHeapRun)
    (hrest : ∀ programmed t, StartInv (.ready programmed) t →
      (∀ r ∈ XhcReg.needed, r ∈ programmed) → this.HandedOver capRegs t → Ends rest t post fails) :
    Ends (do
      initPrimaryEventRing this
      initSlotsAndContexts hc capRegs this
      initCommandRing this
      rest) s post fails := by
  have hslots : capRegs.numOfDeviceSlots < 256 := by
    rw [CapabilityRegisters.numOfDeviceSlots_eq]
    omega
  refine Ends.bind (Ends.bind (writeReg_ends (Ends.bind (writeReg_ends (Ends.bind (writeReg_ends
    (writeReg_ends ?_)))))))
  refine Ends.bind (Ends.bind (Ends.bind (readReg_ends fun config _ => writeReg_ends
    (writeReg_ends (Ends.bind (writeReg_ends ?_))))))
  have hsize := h.program (r := .erstSize) (v := (1 : BitVec 32).setWidth 64) (by decide) rfl
  have herdp := hsize.program (r := .erdp)
    (v := (BitVec.ofNat 64 this.eventRing.ptr).setWidth 64) (by decide) rfl
  have hbase := herdp.program (r := .erstBase)
    (v := (BitVec.ofNat 64 this.erst.ptr).setWidth 64) (by decide) rfl
  have hirs := hbase.program (r := .management) (v := (0 : BitVec 32).setWidth 64) (by decide) rfl
  have hconfig := (hirs.read_config (config.setWidth 64)).program (r := .config)
    (v := (OperationalRegisters.setNumDeviceSlots config capRegs.numOfDeviceSlots).setWidth 64)
    (by decide) rfl
  have hdcbaap := hconfig.program (r := .dcbaap)
    (v := (BitVec.ofNat 64 this.dcbaa.ptr).setWidth 64) (by decide) rfl
  have hcrcr := hdcbaap.program (r := .crcr)
    (v := (BitVec.ofNat 64 this.commandRing.ptr ||| 1).setWidth 64) (by decide) rfl
  refine hrest _ _ hcrcr (by decide) ⟨hprep, ?_, ?_, ?_, ?_, ?_, _, ?_,
    OperationalRegisters.maxSlotsEn_setNumDeviceSlots config hslots⟩
  all_goals simp [XhcStart.reg_log_write, XhcStart.reg_log_read]

def HostController.prompt : HostController where
  answer trace r := match r with
    | .usbcmd => ((lastOf (RegAccess.written .usbcmd) trace).getD 0) &&& ~~~2
    | .usbsts => if runStop ((lastOf (RegAccess.written .usbcmd) trace).getD 0) then 0 else 1
    | .pagesize => 1
    | _ => 0
  stays_stopped trace v hv hstop := by
    dsimp only
    rw [hv, Option.getD_some, runStop, BitVec.getLsbD_and]
    exact (congrArg (· && _) hstop).trans (Bool.false_and _)
  resets_once trace _ := by
    rw [hcReset, BitVec.getLsbD_and]
    exact Bool.and_false _

def promptStarts : Except Fault Bool := do
  let heap ← Heap.initWithMmap ⟨fun _ => 0, none⟩ longMap
  match Controller.new .prompt 8 .typical ⟨⟨heap, []⟩, []⟩ with
  | .ok _ _ => return true
  | .error e _ => throw e

theorem promptStarts_eq : promptStarts = .ok true := by decide +kernel

end Wasabi
