import Wasabi.ControlTransfer
import Wasabi.InterfacePick
import Wasabi.Keyboard

namespace Wasabi
set_option autoImplicit true

inductive UsbHidProtocol where
  | bootProtocol
  deriving DecidableEq, Repr

def UsbHidProtocol.value : UsbHidProtocol → BitVec 8
  | bootProtocol => 0

section
variable {m : Type → Type} [Monad m] [MonadExceptOf Fault m] (xhc : Port m)

/-- The report is written to the 8 bytes at `ptr`, which `buf` reads. -/
def requestHidReport (slot : BitVec 8) (ptr : BitVec 64) (buf : m (List UInt8)) :
    m (List UInt8) := do
  Controller.requestReportBytes xhc slot ptr 8
  buf

/-- The loop of `start_usb_keyboard`, for as many rounds as it has gone through so far. -/
def keyboardRounds (slot : BitVec 8) (ptr : BitVec 64) (buf : m (List UInt8)) :
    Nat → List KeyLog → Finset UInt8 → m (List KeyLog)
  | 0, logs, _ => return logs
  | rounds + 1, logs, prevPressed => do
    let report ← requestHidReport xhc slot ptr buf
    let (logs', pressed) := keyboardRound prevPressed report
    keyboardRounds slot ptr buf rounds (logs ++ logs') pressed

def startUsbKeyboard (slot : BitVec 8) (ptr : BitVec 64) (buf : m (List UInt8)) (rounds : Nat)
    (descriptors : List UsbDescriptor) : m (List KeyLog) :=
  match pickInterfaceWithTriple descriptors (3, 1, 1) with
  | none => throw (.err "No USB KBD Boot interface found")
  | some (configDesc, _, _) => do
    Controller.requestSetProtocol xhc slot configDesc.configValue.toBitVec
      UsbHidProtocol.bootProtocol.value
    keyboardRounds xhc slot ptr buf rounds [] ∅

end

/-- The first of the entries pushed after `before` selects the boot protocol of an interface. -/
structure SelectsBoot (before pushed : List GenericTrbEntry) (interfaceNumber : UInt8)
    (setup : GenericTrbEntry) : Prop where
  first : before ++ [setup] <+: pushed
  kind : setup.kind = TrbType.setupStage.value
  requestType : setup.bmRequestType = SetupStageTrb.reqTypeToInterface
  request : setup.bRequest = SetupStageTrb.reqSetProtocol
  value : setup.wValue = 0
  index : setup.wIndex = interfaceNumber.toBitVec.setWidth 16
  length : setup.wLength = 0

section
variable {doorbells : Nat} {event : Nat → GenericTrbEntry} {before : List GenericTrbEntry}

theorem push_keeps (trb : GenericTrbEntry) :
    Keeps (before <+: ·) ((recorder doorbells event).push trb) :=
  fun s h => h.trans (List.prefix_append s [trb])

theorem wait_keeps (slot : BitVec 8) (ptr : Nat) :
    Keeps (before <+: ·) (do
      (recorder doorbells event).notifyEp slot 1
      MonadExcept.ofExcept (← (recorder doorbells event).wait ptr).transferResultOk) :=
  (Keeps.ofExcept _).bind fun _ => (Keeps.pure _).bind fun _ => Keeps.ofExcept _

theorem keyboardRounds_keeps (slot : BitVec 8) (ptr : BitVec 64) (contents : Nat → List UInt8)
    (rounds : Nat) (logs : List KeyLog) (prevPressed : Finset UInt8) :
    Keeps (before <+: ·) (keyboardRounds (recorder doorbells event) slot ptr
      (recordedBuffer contents) rounds logs prevPressed) := by
  induction rounds generalizing logs prevPressed with
  | zero => exact Keeps.pure _
  | succ rounds ih =>
    refine Keeps.bind (Keeps.bind ?_ fun _ s h => h) fun report => ih _ _
    exact (push_keeps _).bind fun _ => (push_keeps _).bind fun _ => (push_keeps _).bind fun _ =>
      wait_keeps slot _

theorem startUsbKeyboard_first (doorbells : Nat) (event : Nat → GenericTrbEntry)
    (before : List GenericTrbEntry) (slot : BitVec 8) (ptr : BitVec 64)
    (contents : Nat → List UInt8) (rounds : Nat)
    (hpick : pickInterfaceWithTriple ds (3, 1, 1) = some (c, i, eps)) :
    before ++ [(SetupStageTrb.setProtocol c.configValue.toBitVec
        UsbHidProtocol.bootProtocol.value).toEntry] <+:
      endState (startUsbKeyboard (recorder doorbells event) slot ptr (recordedBuffer contents)
        rounds ds) before := by
  rw [startUsbKeyboard, hpick]
  dsimp only
  apply Ends.endState
  refine Ends.bind (Ends.bind ?_)
  refine Keeps.bind (push_keeps _) (fun _ => wait_keeps slot _) _ (List.prefix_rfl) |>.mono ?_ ?_
  · exact fun _ s h => keyboardRounds_keeps slot ptr contents rounds [] ∅ s h
  · exact fun _ _ h => h

theorem SelectsBoot.configValue_eq (hpick : pickInterfaceWithTriple ds (3, 1, 1) = some (c, i, eps))
    (h : SelectsBoot before (endState (startUsbKeyboard (recorder doorbells event) slot ptr
      (recordedBuffer contents) rounds ds) before) interfaceNumber setup) :
    c.configValue = interfaceNumber := by
  have hfirst := startUsbKeyboard_first doorbells event before slot ptr contents rounds hpick
  have hsame := (List.prefix_of_prefix_length_le h.first hfirst (by simp)).eq_of_length (by simp)
  have hindex := h.index
  rw [List.singleton_inj.1 (List.append_cancel_left hsame), SetupStageTrb.setProtocol,
    SetupStageTrb.index_new] at hindex
  exact UInt8.toBitVec_inj.1 (by bv_omega)

/-- What is picked is sent the boot protocol exactly when its configuration has the same number. -/
theorem start_keyboard_selects_boot_iff (slot : BitVec 8) (ptr : BitVec 64)
    (contents : Nat → List UInt8) (rounds : Nat)
    (hpick : pickInterfaceWithTriple ds (3, 1, 1) = some (c, i, eps)) :
    (∃ setup, SelectsBoot before (endState (startUsbKeyboard (recorder doorbells event) slot ptr
      (recordedBuffer contents) rounds ds) before) i.interfaceNumber setup) ↔
      c.configValue = i.interfaceNumber := by
  constructor
  · rintro ⟨setup, h⟩
    exact h.configValue_eq hpick
  · intro he
    refine ⟨_, startUsbKeyboard_first _ _ _ slot ptr contents rounds hpick, SetupStageTrb.kind_new,
      SetupStageTrb.bmRequestType_new, SetupStageTrb.request_new, SetupStageTrb.value_new, ?_,
      SetupStageTrb.wLength_new⟩
    rw [SetupStageTrb.setProtocol, SetupStageTrb.index_new, he]

end

def bootKeyboard (interfaceNumber : UInt8) : List UsbDescriptor :=
  [.config ⟨9, 2, 34, 1, 1, 0, 0xa0, 50⟩, .interface ⟨9, 4, interfaceNumber, 0, 1, 3, 1, 1, 0⟩,
    .endpoint ⟨7, 5, 0x81, 3, 8, 10⟩]

theorem start_keyboard_selects_boot_one :
    (∃ setup, SelectsBoot [] (endState (startUsbKeyboard (recorder 8 fun _ => ⟨0, 0, 0⟩) 1 0
      (recordedBuffer fun _ => []) 1 (bootKeyboard 1)) []) 1 setup) ↔ (1 : UInt8) = 1 :=
  start_keyboard_selects_boot_iff (c := ⟨9, 2, 34, 1, 1, 0, 0xa0, 50⟩)
    (i := ⟨9, 4, 1, 0, 1, 3, 1, 1, 0⟩) 1 0 (fun _ => []) 1 rfl

/-- The only interface has number 0, as is usual; the request goes to interface 1. -/
theorem start_keyboard_wrong_interface :
    pickInterfaceWithTriple (bootKeyboard 0) (3, 1, 1) = some (⟨9, 2, 34, 1, 1, 0, 0xa0, 50⟩,
        ⟨9, 4, 0, 0, 1, 3, 1, 1, 0⟩, [⟨7, 5, 0x81, 3, 8, 10⟩]) ∧
      ¬∃ setup, SelectsBoot [] (endState (startUsbKeyboard (recorder 8 fun _ => ⟨0, 0, 0⟩) 1 0
        (recordedBuffer fun _ => []) 1 (bootKeyboard 0)) []) 0 setup := by
  refine ⟨rfl, ?_⟩
  rintro ⟨setup, h⟩
  exact absurd (h.configValue_eq rfl) (by decide)

end Wasabi
