import Wasabi.Boxes
import Wasabi.RegisterTrace
import Wasabi.XhcRegisters

namespace Wasabi
set_option autoImplicit true

/-- The registers that are used to start the controller, with those of interrupter 0. -/
inductive XhcReg where
  | usbcmd
  | usbsts
  | pagesize
  | crcr
  | dcbaap
  | config
  | management
  | erstSize
  | erstBase
  | erdp
  deriving DecidableEq, Repr

abbrev XhcAccess := RegAccess XhcReg (BitVec 64)

namespace OperationalRegisters

def statusHcHalted : BitVec 32 := 0b0001

def cmdRunStop : BitVec 32 := 0b0001

def cmdHcReset : BitVec 32 := 0b0010

end OperationalRegisters

def runStop (v : BitVec 64) : Bool := v.getLsbD 0

def hcReset (v : BitVec 64) : Bool := v.getLsbD 1

def hcHalted (v : BitVec 64) : Bool := v.getLsbD 0

/-- A host controller: what a register reads as after some accesses. It does not start on its own,
and a reset begins with the write of its bit and ends once. -/
structure HostController where
  answer : List XhcAccess → XhcReg → BitVec 64
  stays_stopped : ∀ trace v, lastOf (RegAccess.written .usbcmd) trace = some v → runStop v = false →
    runStop (answer trace .usbcmd) = false
  resets_once : ∀ trace, (∀ v, lastOf (RegAccess.seen .usbcmd) trace = some v → hcReset v = false) →
    hcReset (answer trace .usbcmd) = false

inductive XhcPhase where
  | initial
  | stopping
  | halted
  | resetting
  | ready (programmed : List XhcReg)
  | running
  deriving DecidableEq, Repr

/-- The registers that have to be programmed before the controller is started. -/
def XhcReg.needed : List XhcReg := [.crcr, .dcbaap, .config, .erstSize, .erdp, .erstBase]

/-- The order of a start: stop, wait for the halt, reset, wait for its end without another access,
program the registers, start. ERSTBA starts the event ring, so it comes after ERSTSZ and ERDP. -/
def XhcPhase.next : XhcPhase → XhcAccess → Option XhcPhase
  | .resetting, .read .usbcmd v => some (if hcReset v then .resetting else .ready [])
  | .resetting, _ => none
  | .stopping, .read .usbsts v => some (if hcHalted v then .halted else .stopping)
  | p, .read _ _ => some p
  | .initial, .write .usbcmd v => if runStop v ∨ hcReset v then none else some .stopping
  | .halted, .write .usbcmd v => if hcReset v ∧ ¬runStop v then some .resetting else none
  | .ready programmed, .write .usbcmd v =>
    if runStop v ∧ ¬hcReset v ∧ ∀ r ∈ XhcReg.needed, r ∈ programmed then some .running else none
  | .ready programmed, .write .erstBase _ =>
    if .erstSize ∈ programmed ∧ .erdp ∈ programmed then some (.ready (.erstBase :: programmed))
    else none
  | .ready programmed, .write r _ => some (.ready (r :: programmed))
  | _, .write _ _ => none

def xhcRules : Rules XhcPhase XhcAccess := ⟨.initial, XhcPhase.next⟩

/-- A start of the controller: the heap, and the accesses to registers so far. -/
structure XhcStart extends HeapRun where
  accesses : List XhcAccess

namespace XhcStart

def log (s : XhcStart) (a : XhcAccess) : XhcStart := { s with accesses := s.accesses ++ [a] }

def reg (s : XhcStart) (r : XhcReg) : Option (BitVec 64) := lastOf (RegAccess.written r) s.accesses

end XhcStart

abbrev XhcM := EStateM Fault XhcStart

def onHeap (x : BoxM α) : XhcM α := fun s =>
  match x s.toHeapRun with
  | .ok a t => .ok a { s with toHeapRun := t }
  | .error e t => .error e { s with toHeapRun := t }

section
variable (hc : HostController)

/-- A volatile read of a register of `w` bits. -/
def readReg (r : XhcReg) (w : Nat) : XhcM (BitVec w) := do
  let s ← get
  let v := (hc.answer s.accesses r).setWidth w
  set (s.log (.read r (v.setWidth 64)))
  return v

def writeReg (r : XhcReg) (v : BitVec w) : XhcM Unit :=
  modify (·.log (.write r (v.setWidth 64)))

/-- A busy loop on a register, left at a value that `ready` holds of. -/
def spinUntil (fuel : Nat) (r : XhcReg) (ready : BitVec 32 → Bool) : XhcM Unit :=
  loopFrom .diverged (fun () => do
    if ready (← readReg hc r 32) then return .inr () else return .inl ()) fuel ()

namespace OperationalRegisters

def setCommandBits (bits : BitVec 32) : XhcM Unit := do
  writeReg .usbcmd ((← readReg hc .usbcmd 32) ||| bits)

def clearCommandBits (bits : BitVec 32) : XhcM Unit := do
  writeReg .usbcmd ((← readReg hc .usbcmd 32) &&& ~~~bits)

def resetXhc (fuel : Nat) : XhcM Unit := do
  clearCommandBits hc cmdRunStop
  spinUntil hc fuel .usbsts fun v => v &&& statusHcHalted != 0
  setCommandBits hc cmdHcReset
  spinUntil hc fuel .usbcmd fun v => v &&& cmdHcReset == 0

def startXhc (fuel : Nat) : XhcM Unit := do
  setCommandBits hc cmdRunStop
  spinUntil hc fuel .usbsts fun v => v &&& statusHcHalted == 0

/-- `set_num_device_slots`, with the value of `setNumDeviceSlots`. -/
def writeNumDeviceSlots (num : Nat) : XhcM Unit := do
  writeReg .config (setNumDeviceSlots (← readReg hc .config 64) num)

end OperationalRegisters

end

section
variable {hc : HostController} {s : XhcStart} {fails : Fault → XhcStart → Prop}

theorem onHeap_ends {x : BoxM α} {post : α → XhcStart → Prop}
    (h : Ends x s.toHeapRun (fun a t => post a { s with toHeapRun := t })
      fun e t => fails e { s with toHeapRun := t }) : Ends (onHeap x) s post fails := by
  rw [Ends, onHeap]
  cases hx : x s.toHeapRun with
  | ok a t => exact h.of_ok hx
  | error e t => exact h.of_error hx

theorem readReg_ends {post : BitVec w → XhcStart → Prop}
    (h : ∀ v, v = (hc.answer s.accesses r).setWidth w →
      post v (s.log (.read r (v.setWidth 64)))) : Ends (readReg hc r w) s post fails :=
  h _ rfl

theorem writeReg_ends {v : BitVec w} {post : Unit → XhcStart → Prop}
    (h : post () (s.log (.write r (v.setWidth 64)))) : Ends (writeReg r v) s post fails := h

namespace XhcStart

theorem reg_log (s : XhcStart) (a : XhcAccess) (r : XhcReg) :
    (s.log a).reg r = (a.written r).or (s.reg r) := by
  rw [reg, log, lastOf_append]
  cases h : a.written r with
  | none =>
    rw [(lastOf_eq_none _ _).2 (List.forall_mem_singleton.2 h)]
    rfl
  | some v =>
    rw [lastOf_cons, h]
    rfl

theorem reg_log_read (s : XhcStart) (r r' : XhcReg) (v : BitVec 64) :
    (s.log (.read r' v)).reg r = s.reg r := by rw [reg_log]; rfl

theorem reg_log_write (s : XhcStart) (r r' : XhcReg) (v : BitVec 64) :
    (s.log (.write r' v)).reg r = if r' = r then some v else s.reg r := by
  rw [reg_log, RegAccess.written]
  split <;> rfl

end XhcStart

/-- Where a start is, with what is known of USBCMD: the controller does not run, and outside of a
reset its bit has been seen clear. -/
structure StartInv (p : XhcPhase) (s : XhcStart) : Prop where
  phase : xhcRules.phase s.accesses = some p
  stopped : ∃ v, s.reg .usbcmd = some v ∧ runStop v = false
  calm : p ≠ .resetting → ∀ v, lastOf (RegAccess.seen .usbcmd) s.accesses = some v →
    hcReset v = false

namespace StartInv
variable {p q : XhcPhase}

theorem run_clear (h : StartInv p s) (hc : HostController) :
    runStop (hc.answer s.accesses .usbcmd) = false := by
  obtain ⟨v, hv, hclear⟩ := h.stopped
  exact hc.stays_stopped s.accesses v hv hclear

theorem reset_clear (h : StartInv p s) (hp : p ≠ .resetting) (hc : HostController) :
    hcReset (hc.answer s.accesses .usbcmd) = false :=
  hc.resets_once s.accesses (h.calm hp)

theorem lastSeen_log (a : XhcAccess) (r : XhcReg) :
    lastOf (RegAccess.seen r) (s.log a).accesses =
      (a.seen r).or (lastOf (RegAccess.seen r) s.accesses) := by
  rw [XhcStart.log, lastOf_append]
  cases h : a.seen r with
  | none => rw [(lastOf_eq_none _ _).2 (List.forall_mem_singleton.2 h)]
  | some v =>
    rw [lastOf_cons, h]
    rfl

theorem other (h : StartInv p s) {a : XhcAccess} (hnext : p.next a = some q)
    (hw : a.written .usbcmd = none) (hs : a.seen .usbcmd = none)
    (hq : q ≠ .resetting → p ≠ .resetting) : StartInv q (s.log a) := by
  refine ⟨(Rules.phase_snoc h.phase a).trans hnext, ?_, fun hne v hv => ?_⟩
  · rw [XhcStart.reg_log, hw]
    exact h.stopped
  · rw [lastSeen_log, hs] at hv
    exact h.calm (hq hne) v hv

theorem read_usbcmd (h : StartInv p s) (hnext : p.next (.read .usbcmd v) = some q)
    (hq : q ≠ .resetting → hcReset v = false) : StartInv q (s.log (.read .usbcmd v)) := by
  refine ⟨(Rules.phase_snoc h.phase _).trans hnext, ?_, fun hne u hu => ?_⟩
  · rw [XhcStart.reg_log_read]
    exact h.stopped
  · rw [lastSeen_log] at hu
    cases hu
    exact hq hne

theorem write_usbcmd (h : StartInv p s) (hnext : p.next (.write .usbcmd v) = some q)
    (hv : runStop v = false) (hq : q ≠ .resetting → hcReset v = false) :
    StartInv q (s.log (.write .usbcmd v)) := by
  refine ⟨(Rules.phase_snoc h.phase _).trans hnext, ⟨v, ?_, hv⟩, fun hne u hu => ?_⟩
  · rw [XhcStart.reg_log_write, if_pos rfl]
  · rw [lastSeen_log] at hu
    cases hu
    exact hq hne

end StartInv

theorem runStop_wide (v : BitVec 32) : runStop (v.setWidth 64) = v.getLsbD 0 := by
  rw [runStop, BitVec.getLsbD_setWidth]
  rfl

theorem hcReset_wide (v : BitVec 32) : hcReset (v.setWidth 64) = v.getLsbD 1 := by
  rw [hcReset, BitVec.getLsbD_setWidth]
  rfl

theorem hcHalted_wide (v : BitVec 32) : hcHalted (v.setWidth 64) = v.getLsbD 0 := by
  rw [hcHalted, BitVec.getLsbD_setWidth]
  rfl

theorem narrow_runStop (v : BitVec 64) : (v.setWidth 32).getLsbD 0 = runStop v := by
  rw [runStop, BitVec.getLsbD_setWidth]
  rfl

theorem narrow_hcReset (v : BitVec 64) : (v.setWidth 32).getLsbD 1 = hcReset v := by
  rw [hcReset, BitVec.getLsbD_setWidth]
  rfl

namespace OperationalRegisters

theorem halted_test (v : BitVec 32) : (v &&& statusHcHalted != 0) = hcHalted (v.setWidth 64) :=
  (land_bit_ne v (Nat.zero_lt_succ 31)).trans (hcHalted_wide v).symm

theorem running_test (v : BitVec 32) : (v &&& statusHcHalted == 0) = !hcHalted (v.setWidth 64) := by
  rw [← halted_test, bne, Bool.not_not]

theorem reset_test (v : BitVec 32) : (v &&& cmdHcReset == 0) = !hcReset (v.setWidth 64) := by
  have hlt : 1 < 32 := by decide
  rw [hcReset_wide]
  exact land_bit_eq v hlt

end OperationalRegisters

theorem spinUntil_ends {ready : BitVec 32 → Bool} {post : Unit → XhcStart → Prop}
    (inv : XhcStart → Prop) (h : inv s)
    (hread : ∀ s v, inv s → v = (hc.answer s.accesses r).setWidth 32 → ready v = false →
      inv (s.log (.read r (v.setWidth 64))))
    (hdone : ∀ s v, inv s → v = (hc.answer s.accesses r).setWidth 32 → ready v = true →
      post () (s.log (.read r (v.setWidth 64))))
    (hstuck : ∀ s, inv s → fails .diverged s) :
    Ends (spinUntil hc fuel r ready) s post fails := by
  rw [spinUntil]
  induction fuel generalizing s with
  | zero => exact Ends.throw (hstuck s h)
  | succ fuel ih =>
    refine Ends.bind (Ends.bind (readReg_ends fun v hv => ?_))
    cases hr : ready v with
    | true => exact hdone s v h hv hr
    | false => exact ih (hread s v h hv hr)

/-- A start that has failed before the controller was started. -/
def Unstarted (s : XhcStart) : Prop := ∃ p, p ≠ .running ∧ xhcRules.phase s.accesses = some p

theorem StartInv.unstarted (h : StartInv p s) (hp : p ≠ .running) : Unstarted s := ⟨p, hp, h.phase⟩

namespace OperationalRegisters

theorem resetXhc_ends {post : Unit → XhcStart → Prop} (hstart : s.accesses = [])
    (hpost : ∀ t, StartInv (.ready []) t → t.toHeapRun = s.toHeapRun → post () t)
    (hfail : ∀ t, Unstarted t → fails .diverged t) :
    Ends (resetXhc hc fuel) s post fails := by
  refine Ends.bind (Ends.bind (readReg_ends fun v hv => writeReg_ends ?_))
  have hclear : runStop ((v &&& ~~~cmdRunStop).setWidth 64) = false := by
    rw [runStop_wide, BitVec.getLsbD_and]
    exact Bool.and_false _
  have hcalm : hcReset ((v &&& ~~~cmdRunStop).setWidth 64) = false := by
    have hone : hcReset (hc.answer s.accesses .usbcmd) = false := by
      rw [hstart]
      exact hc.resets_once [] fun v hv => by cases hv
    rw [hcReset_wide, BitVec.getLsbD_and, hv, narrow_hcReset, hone, Bool.false_and]
  have hstop : StartInv .stopping ((s.log (.read .usbcmd (v.setWidth 64))).log
      (.write .usbcmd ((v &&& ~~~cmdRunStop).setWidth 64))) := by
    refine ⟨?_, ⟨_, ?_, hclear⟩, fun _ u hu => ?_⟩
    · have hphase : xhcRules.phase (s.log (.read .usbcmd (v.setWidth 64))).accesses =
          some .initial := by
        rw [XhcStart.log, hstart]
        rfl
      refine (Rules.phase_snoc hphase _).trans (if_neg ?_)
      rw [hclear, hcalm]
      decide
    · rw [XhcStart.reg_log_write, if_pos rfl]
    · rw [StartInv.lastSeen_log] at hu
      cases hu
      exact hcalm
  refine Ends.bind (spinUntil_ends (fun t => StartInv .stopping t ∧ t.toHeapRun = s.toHeapRun)
    ⟨hstop, rfl⟩ (fun t v h _ hr => ⟨h.1.other ?_ rfl rfl fun _ => by decide, h.2⟩)
    (fun t status h _ hr => ?_) fun t h => hfail t (h.1.unstarted (by decide)))
  · rw [halted_test] at hr
    exact congrArg some (if_neg (by rw [hr]; decide))
  rw [halted_test] at hr
  have hhalted : StartInv .halted (t.log (.read .usbsts (status.setWidth 64))) :=
    h.1.other (congrArg some (if_pos hr)) rfl rfl fun _ => by decide
  refine Ends.bind (Ends.bind (readReg_ends fun v hv => writeReg_ends ?_))
  have hquiet : hcReset (v.setWidth 64) = false := by
    rw [hcReset_wide, hv, narrow_hcReset, hhalted.reset_clear (by decide)]
  have hrun : runStop ((v ||| cmdHcReset).setWidth 64) = false := by
    rw [runStop_wide, BitVec.getLsbD_or, hv, narrow_runStop, hhalted.run_clear]
    rfl
  have hset : hcReset ((v ||| cmdHcReset).setWidth 64) = true := by
    rw [hcReset_wide, BitVec.getLsbD_or]
    exact Bool.or_true _
  have hresetting : StartInv .resetting (((t.log (.read .usbsts (status.setWidth 64))).log
      (.read .usbcmd (v.setWidth 64))).log (.write .usbcmd ((v ||| cmdHcReset).setWidth 64))) := by
    refine (hhalted.read_usbcmd rfl fun _ => hquiet).write_usbcmd (if_pos ⟨hset, ?_⟩) hrun
      fun hne => absurd rfl hne
    rw [hrun]
    decide
  refine spinUntil_ends (fun t => StartInv .resetting t ∧ t.toHeapRun = s.toHeapRun)
    ⟨hresetting, h.2⟩ (fun t v h _ hr => ⟨h.1.read_usbcmd ?_ fun hne => absurd rfl hne, h.2⟩)
    (fun t v h _ hr => hpost _ (h.1.read_usbcmd ?_ fun _ => ?_) h.2)
    fun t h => hfail t (h.1.unstarted (by decide))
  · rw [reset_test, Bool.not_eq_false'] at hr
    exact congrArg some (if_pos hr)
  · rw [reset_test, Bool.not_eq_true'] at hr
    exact congrArg some (if_neg (by rw [hr]; decide))
  · rw [reset_test, Bool.not_eq_true'] at hr
    exact hr

end OperationalRegisters

/-- Run/Stop has been set, after which nothing was written. -/
structure Launched (s t : XhcStart) : Prop where
  phase : xhcRules.phase t.accesses = some .running
  heap : t.toHeapRun = s.toHeapRun
  regs : ∀ r, r ≠ .usbcmd → t.reg r = s.reg r

theorem Launched.read (h : Launched s t) (r : XhcReg) (v : BitVec 64) :
    Launched s (t.log (.read r v)) := by
  refine ⟨(Rules.phase_snoc h.phase _).trans rfl, h.heap, fun r' hr => ?_⟩
  rw [XhcStart.reg_log_read, h.regs r' hr]

def XhcStart.Runs (s : XhcStart) : Prop :=
  ∃ v, lastOf (RegAccess.seen .usbsts) s.accesses = some v ∧ hcHalted v = false

namespace OperationalRegisters

theorem startXhc_ends {post : Unit → XhcStart → Prop} (h : StartInv (.ready programmed) s)
    (hall : ∀ r ∈ XhcReg.needed, r ∈ programmed)
    (hpost : ∀ t, Launched s t → t.Runs → post () t)
    (hfail : ∀ t, Launched s t → fails .diverged t) :
    Ends (startXhc hc fuel) s post fails := by
  refine Ends.bind (Ends.bind (readReg_ends fun v hv => writeReg_ends ?_))
  have hquiet : hcReset (v.setWidth 64) = false := by
    rw [hcReset_wide, hv, narrow_hcReset, h.reset_clear XhcPhase.noConfusion]
  have hcalm : hcReset ((v ||| cmdRunStop).setWidth 64) = false := by
    rw [hcReset_wide, BitVec.getLsbD_or, ← hcReset_wide, hquiet]
    rfl
  have hrun : runStop ((v ||| cmdRunStop).setWidth 64) = true := by
    rw [runStop_wide, BitVec.getLsbD_or]
    exact Bool.or_true _
  have hread := h.read_usbcmd (v := v.setWidth 64) rfl fun _ => hquiet
  have hphase := (Rules.phase_snoc hread.phase
    (.write .usbcmd ((v ||| cmdRunStop).setWidth 64))).trans
      (if_pos ⟨hrun, Bool.eq_false_iff.1 hcalm, hall⟩)
  have hlaunched : Launched s ((s.log (.read .usbcmd (v.setWidth 64))).log
      (.write .usbcmd ((v ||| cmdRunStop).setWidth 64))) := by
    refine ⟨hphase, rfl, fun r hr => ?_⟩
    rw [XhcStart.reg_log_write, if_neg hr.symm, XhcStart.reg_log_read]
  refine spinUntil_ends (Launched s) hlaunched (fun t v h _ _ => h.read _ _)
    (fun t v h _ hr => hpost _ (h.read _ _) ⟨v.setWidth 64, ?_, ?_⟩) fun t h => hfail t h
  · rw [StartInv.lastSeen_log]
    rfl
  · rwa [running_test, Bool.not_eq_true'] at hr

end OperationalRegisters

theorem StartInv.program {s : XhcStart} (h : StartInv (.ready programmed) s) (hr : r ≠ .usbcmd)
    (hnext : (XhcPhase.ready programmed).next (.write r v) = some (.ready (r :: programmed))) :
    StartInv (.ready (r :: programmed)) (s.log (.write r v)) :=
  h.other hnext (if_neg hr) (if_neg hr) fun _ => XhcPhase.noConfusion

theorem StartInv.read_config {s : XhcStart} (h : StartInv (.ready programmed) s) (v : BitVec 64) :
    StartInv (.ready programmed) (s.log (.read .config v)) :=
  h.other rfl rfl rfl id

theorem StartInv.heap {s : XhcStart} (h : StartInv p s) (b : HeapRun) :
    StartInv p { s with toHeapRun := b } := ⟨h.phase, h.stopped, h.calm⟩

end

end Wasabi
