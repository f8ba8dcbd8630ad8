import Wasabi.ControlTransfer

namespace Wasabi
set_option autoImplicit true

namespace SetupStageTrb

theorem fields_of_data {t t' : SetupStageTrb} (h : t.toEntry.data = t'.toEntry.data) :
    t.requestType = t'.requestType ∧ t.request = t'.request ∧ t.value = t'.value ∧
      t.index = t'.index ∧ t.length = t'.length := by
  have hnat := congrArg BitVec.toNat h
  simp only [toEntry, BitVec.toNat_ofNat] at hnat
  have hty := t.requestType.isLt
  have hreq := t.request.isLt
  have hval := t.value.isLt
  have hidx := t.index.isLt
  have hty' := t'.requestType.isLt
  have hreq' := t'.request.isLt
  have hval' := t'.value.isLt
  have hidx' := t'.index.isLt
  have hlen := t.length.isLt
  have hlen' := t'.length.isLt
  refine ⟨BitVec.eq_of_toNat_eq ?_, BitVec.eq_of_toNat_eq ?_, BitVec.eq_of_toNat_eq ?_,
    BitVec.eq_of_toNat_eq ?_, BitVec.eq_of_toNat_eq ?_⟩ <;> omega

end SetupStageTrb

theorem Controller.descriptorValue_toNat (t : UsbDescriptorType) (i : BitVec 8) :
    (descriptorValue t i).toNat = t.value.toNat * 256 + i.toNat := by
  have ht : t.value.toNat < 256 := t.value.toBitVec.isLt
  have hor := Nat.shiftLeft_add_eq_or_of_lt i.isLt t.value.toNat
  have hshift : t.value.toNat <<< 8 = t.value.toNat * 256 := Nat.shiftLeft_eq _ _
  rw [hshift] at hor
  have hi := i.isLt
  rw [descriptorValue, BitVec.toNat_or, BitVec.toNat_shiftLeft, BitVec.toNat_setWidth,
    BitVec.toNat_setWidth, UInt8.toNat_toBitVec, Nat.mod_eq_of_lt (by omega),
    Nat.mod_eq_of_lt (by omega), hshift, Nat.mod_eq_of_lt (by omega)]
  exact hor.symm

theorem UsbDescriptorType.value_inj (h : value t = value t') : t = t' := by
  cases t <;> cases t' <;> first | rfl | exact absurd h (by decide)

theorem Controller.descriptorValue_inj (h : descriptorValue t i = descriptorValue t' i') :
    t = t' ∧ i = i' := by
  have hnat := congrArg BitVec.toNat h
  rw [descriptorValue_toNat, descriptorValue_toNat] at hnat
  have hi := i.isLt
  have hi' := i'.isLt
  have ht : t.value.toNat = t'.value.toNat := by omega
  have hi : i.toNat = i'.toNat := by omega
  exact ⟨UsbDescriptorType.value_inj (UInt8.toNat_inj.1 ht), BitVec.eq_of_toNat_eq hi⟩

theorem wLength_inj (ha : a ≤ 65535) (hb : b ≤ 65535) (h : BitVec.ofNat 16 a = BitVec.ofNat 16 b) :
    a = b := by
  have hnat := congrArg BitVec.toNat h
  rw [BitVec.toNat_ofNat, BitVec.toNat_ofNat] at hnat
  omega

theorem setWidth_inj {a b : BitVec 8} (h : a.setWidth 16 = b.setWidth 16) : a = b := by
  bv_omega

namespace ControlRequest

def dataLength : ControlRequest → Nat
  | descriptor _ _ _ buf => buf.bytes
  | reportBytes _ len => len
  | setConfig _ => 0
  | setInterface _ _ => 0
  | setProtocol _ _ => 0
  | descriptorForInterface _ _ _ buf => buf.bytes

/-- The request with only the length of its buffer. -/
def withoutBuffer : ControlRequest → ControlRequest
  | descriptor descType descIndex langId buf =>
    descriptor descType descIndex langId ⟨0, buf.bytes, 1⟩
  | reportBytes _ len => reportBytes 0 len
  | descriptorForInterface descType descIndex wIndex buf =>
    descriptorForInterface descType descIndex wIndex ⟨0, buf.bytes, 1⟩
  | r => r

def setupBytes (r : ControlRequest) (doorbells : Nat) (event : Nat → GenericTrbEntry)
    (slot : BitVec 8) : Option (BitVec 64) :=
  (r.pushed doorbells event slot).head?.map GenericTrbEntry.data

def setup : ControlRequest → SetupStageTrb
  | descriptor descType descIndex langId buf =>
    .getDescriptor descType descIndex langId buf.bytes
  | reportBytes _ len => .getReport len
  | setConfig configValue => .setConfiguration configValue
  | setInterface interfaceNumber altSetting => .setInterface interfaceNumber altSetting
  | setProtocol interfaceNumber protocol => .setProtocol interfaceNumber protocol
  | descriptorForInterface descType descIndex wIndex buf =>
    .getInterfaceDescriptor descType descIndex wIndex buf.bytes

theorem setupBytes_eq (r : ControlRequest) :
    r.setupBytes doorbells event slot = some r.setup.toEntry.data := by
  rw [setupBytes, pushed, run.eq_def]
  cases r with
  | descriptor descType descIndex langId buf =>
    dsimp only
    rw [Controller.requestDescriptor, requestIn_pushes]
    rfl
  | reportBytes ptr len =>
    dsimp only
    rw [Controller.requestReportBytes, requestIn_pushes]
    rfl
  | setConfig configValue =>
    dsimp only
    rw [Controller.requestSetConfig, requestSet_pushes]
    rfl
  | setInterface interfaceNumber altSetting =>
    dsimp only
    rw [Controller.requestSetInterface, requestSet_pushes]
    rfl
  | setProtocol interfaceNumber protocol =>
    dsimp only
    rw [Controller.requestSetProtocol, requestSet_pushes]
    rfl
  | descriptorForInterface descType descIndex wIndex buf =>
    dsimp only
    rw [Controller.requestDescriptorForInterface, requestIn_pushes]
    rfl

/-- Setting an interface and setting a protocol with the same arguments. -/
def Clash : ControlRequest → ControlRequest → Prop
  | setInterface interfaceNumber altSetting, setProtocol interfaceNumber' protocol =>
    interfaceNumber = interfaceNumber' ∧ altSetting = protocol
  | setProtocol interfaceNumber protocol, setInterface interfaceNumber' altSetting =>
    interfaceNumber = interfaceNumber' ∧ protocol = altSetting
  | _, _ => False

theorem setup_identifies (hr : r.dataLength ≤ 65535) (hs : s.dataLength ≤ 65535)
    (h : r.setup.toEntry.data = s.setup.toEntry.data) :
    r.withoutBuffer = s.withoutBuffer ∨ Clash r s := by
  obtain ⟨hty, hreq, hval, hidx, hlen⟩ := SetupStageTrb.fields_of_data h
  cases r with
  | descriptor descType descIndex langId buf =>
    cases s with
    | descriptor descType' descIndex' langId' buf' =>
      obtain ⟨rfl, rfl⟩ := Controller.descriptorValue_inj hval
      have hbytes := wLength_inj hr hs hlen
      cases hidx
      exact .inl (congrArg (fun n => descriptor descType descIndex langId ⟨0, n, 1⟩) hbytes)
    | _ => exact absurd hty (of_decide_eq_false rfl)
  | reportBytes ptr len =>
    cases s with
    | reportBytes ptr' len' => exact .inl (congrArg (reportBytes 0) (wLength_inj hr hs hlen))
    | _ => exact absurd hty (of_decide_eq_false rfl)
  | setConfig configValue =>
    cases s with
    | setConfig configValue' => exact .inl (congrArg setConfig (setWidth_inj hval))
    | _ => exact absurd hty (of_decide_eq_false rfl)
  | setInterface interfaceNumber altSetting =>
    cases s with
    | setInterface interfaceNumber' altSetting' =>
      cases setWidth_inj hidx
      exact .inl (congrArg (setInterface interfaceNumber) (setWidth_inj hval))
    | setProtocol interfaceNumber' protocol =>
      exact .inr ⟨setWidth_inj hidx, setWidth_inj hval⟩
    | _ => exact absurd hty (of_decide_eq_false rfl)
  | setProtocol interfaceNumber protocol =>
    cases s with
    | setInterface interfaceNumber' altSetting =>
      exact .inr ⟨setWidth_inj hidx, setWidth_inj hval⟩
    | setProtocol interfaceNumber' protocol' =>
      cases setWidth_inj hidx
      exact .inl (congrArg (setProtocol interfaceNumber) (setWidth_inj hval))
    | _ => exact absurd hty (of_decide_eq_false rfl)
  | descriptorForInterface descType descIndex wIndex buf =>
    cases s with
    | descriptorForInterface descType' descIndex' wIndex' buf' =>
      obtain ⟨rfl, rfl⟩ := Controller.descriptorValue_inj hval
      have hbytes := wLength_inj hr hs hlen
      cases hidx
      exact .inl
        (congrArg (fun n => descriptorForInterface descType descIndex wIndex ⟨0, n, 1⟩) hbytes)
    | _ => exact absurd hty (of_decide_eq_false rfl)

/-- Only setting an interface and setting a protocol can be taken for each other. -/
theorem Clash.cases (h : Clash r s) : ∃ interfaceNumber value,
    (r = setInterface interfaceNumber value ∧ s = setProtocol interfaceNumber value) ∨
      (r = setProtocol interfaceNumber value ∧ s = setInterface interfaceNumber value) := by
  unfold Clash at h
  split at h
  · obtain ⟨rfl, rfl⟩ := h
    exact ⟨_, _, .inl ⟨rfl, rfl⟩⟩
  · obtain ⟨rfl, rfl⟩ := h
    exact ⟨_, _, .inr ⟨rfl, rfl⟩⟩
  · exact h.elim

theorem Clash.setup_eq (h : Clash r s) : r.setup = s.setup := by
  obtain ⟨interfaceNumber, value, ⟨rfl, rfl⟩ | ⟨rfl, rfl⟩⟩ := h.cases
  · rfl
  · rfl

theorem setup_identifies_iff (hr : r.dataLength ≤ 65535) (hs : s.dataLength ≤ 65535) :
    (r.setupBytes doorbells event slot = s.setupBytes doorbells' event' slot' →
      r.withoutBuffer = s.withoutBuffer) ↔ ¬Clash r s := by
  rw [setupBytes_eq, setupBytes_eq, Option.some_inj]
  constructor
  · intro h hclash
    have hsame := h (congrArg (fun t => t.toEntry.data) hclash.setup_eq)
    obtain ⟨interfaceNumber, value, ⟨rfl, rfl⟩ | ⟨rfl, rfl⟩⟩ := hclash.cases
    · cases hsame
    · cases hsame
  · intro hclash h
    exact (setup_identifies hr hs h).resolve_right hclash

theorem setup_identifies_descriptor_report :
    ((descriptor .device 0 0 ⟨0x1000, 1, 18⟩).setupBytes 9 (fun _ => .default) 1 =
        (reportBytes 0x1000 18).setupBytes 9 (fun _ => .default) 1 →
      (descriptor .device 0 0 ⟨0x1000, 1, 18⟩).withoutBuffer =
        (reportBytes 0x1000 18).withoutBuffer) ↔
      ¬Clash (descriptor .device 0 0 ⟨0x1000, 1, 18⟩) (reportBytes 0x1000 18) :=
  setup_identifies_iff (by decide) (by decide)

theorem set_protocol_taken_for_set_interface :
    (setProtocol 0 0).setupBytes 9 (fun _ => .default) 1 =
        (setInterface 0 0).setupBytes 9 (fun _ => .default) 1 ∧
      (setProtocol 0 0).withoutBuffer ≠ (setInterface 0 0).withoutBuffer :=
  ⟨by rw [setupBytes_eq, setupBytes_eq]; rfl, nofun⟩

end ControlRequest

end Wasabi
