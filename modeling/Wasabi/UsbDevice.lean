import Wasabi.Enumeration
import Wasabi.SetupPacket

namespace Wasabi
set_option autoImplicit true

open SetupStageTrb

/-- A device with one configuration, whose first descriptor gives the length of them all. -/
structure UsbDevice where
  descriptor : UsbDeviceDescriptor
  languages : List UInt8
  text : BitVec 8 → BitVec 16 → List UInt8
  config : List Descriptor
  reportDescriptor : BitVec 16 → List UInt8
  report : Nat → List UInt8
  head : ∃ d ds, config = d :: ds ∧ d.byte 1 = UsbDescriptorType.config.value ∧
    d.le 2 2 = (config.flatMap Descriptor.bytes).length

namespace UsbDevice

def configBytes (dev : UsbDevice) : List UInt8 := dev.config.flatMap Descriptor.bytes

def descriptorBytes (dev : UsbDevice) (descType index : BitVec 8) (langId : BitVec 16) :
    List UInt8 :=
  if descType = 1 then dev.descriptor.toBytes
  else if descType = 2 then dev.configBytes
  else if descType = 3 then if index = 0 then dev.languages else dev.text index langId
  else []

def reportsRead (transfers : List UsbTransfer) : Nat :=
  transfers.countP fun tr => tr.setup.bRequest = SetupStageTrb.reqGetReport

/-- What the device sends for a request, by the fields of the setup packet. -/
def answer (dev : UsbDevice) (before : List UsbTransfer) (setup : GenericTrbEntry) : List UInt8 :=
  let bytes :=
    if setup.bmRequestType = 0x80 ∧ setup.bRequest = 6 then
      dev.descriptorBytes (setup.wValue.extractLsb' 8 8) (setup.wValue.setWidth 8) setup.wIndex
    else if setup.bmRequestType = 0x81 ∧ setup.bRequest = 6 ∧ setup.wValue = 0x2200 then
      dev.reportDescriptor setup.wIndex
    else if setup.bmRequestType = 0xa1 ∧ setup.bRequest = 1 then dev.report (reportsRead before)
    else []
  bytes.take setup.wLength.toNat

/-- Behind the doorbell of the slot is the device, and every transfer ends well. -/
structure Serves (dev : UsbDevice) (peer : UsbPeer) (slot : BitVec 8) : Prop where
  rings : slot.toNat < peer.doorbells
  data : ∀ before setup, peer.data before setup = dev.answer before setup
  ok : ∀ before setup, (peer.event before setup).transferResultOk = .ok ()

section
variable (dev : UsbDevice)

def langId : BitVec 16 := u16At (padded 16 dev.languages) 1

def string (index : UInt8) : Option String :=
  if index ≠ 0 then
    let bytes := padded 128 (dev.text index.toBitVec dev.langId)
    some (String.ofList ((fromUtf8Lossy (bytes.drop 2)).filter (· ≠ '\x00')))
  else none

def descriptors : List UsbDescriptor := dev.config.map Descriptor.parsed

def reports (rounds : Nat) : List (List UInt8) :=
  (List.range rounds).map fun k => padded 8 (dev.report k)

def IsTablet : Prop :=
  dev.descriptor.deviceClass = 0 ∧ dev.descriptor.deviceSubclass = 0 ∧
    dev.descriptor.deviceProtocol = 0 ∧ dev.descriptor.venderId = 0x0627 ∧
    dev.descriptor.productId = 0x0001

instance : Decidable dev.IsTablet := inferInstanceAs (Decidable (_ ∧ _))

def tabletDriver : UsbDriver :=
  if dev.IsTablet then
    match pickInterfaceWithTriple dev.descriptors (3, 0, 0) with
    | some (_, interfaceDesc, _) => .tablet (padded 4096
        (dev.reportDescriptor (interfaceDesc.interfaceNumber.toBitVec.setWidth 16)))
    | none => .none
  else .none

def driver (rounds : Nat) : UsbDriver :=
  if (pickInterfaceWithTriple dev.descriptors (3, 1, 1)).isSome then
    .keyboard (keyboardLoop (dev.reports rounds)).1
  else dev.tabletDriver

def info (rounds : Nat) : UsbInfo where
  vendor := dev.string dev.descriptor.manufacturerIdx
  product := dev.string dev.descriptor.productIdx
  serial := dev.string dev.descriptor.serialIdx
  descriptors := dev.descriptors
  driver := dev.driver rounds

end

end UsbDevice

theorem u16_bytes (v : UInt16) :
    UInt16.ofNat ((UInt8.ofNat v.toNat).toNat + 256 * (UInt8.ofNat (v.toNat / 256)).toNat) = v := by
  have hlt := v.toNat_lt
  apply UInt16.toNat_inj.1
  rw [UInt16.toNat_ofNat', UInt8.toNat_ofNat', UInt8.toNat_ofNat']
  omega

theorem UsbDeviceDescriptor.fields_toBytes (d : UsbDeviceDescriptor) :
    (fields d.toBytes).1 = d := by
  have hfields : (fields d.toBytes).1 = ⟨d.descLength, d.descType,
      UInt16.ofNat ((UInt8.ofNat d.version.toNat).toNat +
        256 * (UInt8.ofNat (d.version.toNat / 256)).toNat), d.deviceClass, d.deviceSubclass,
      d.deviceProtocol, d.maxPacketSize,
      UInt16.ofNat ((UInt8.ofNat d.venderId.toNat).toNat +
        256 * (UInt8.ofNat (d.venderId.toNat / 256)).toNat),
      UInt16.ofNat ((UInt8.ofNat d.productId.toNat).toNat +
        256 * (UInt8.ofNat (d.productId.toNat / 256)).toNat),
      UInt16.ofNat ((UInt8.ofNat d.deviceVersion.toNat).toNat +
        256 * (UInt8.ofNat (d.deviceVersion.toNat / 256)).toNat),
      d.manufacturerIdx, d.productIdx, d.serialIdx, d.numOfConfig⟩ := rfl
  rw [hfields, u16_bytes, u16_bytes, u16_bytes, u16_bytes]

theorem padded_take (bytes : List UInt8) (h : n ≤ k) :
    padded n (bytes.take k) = padded n bytes := by
  refine List.map_congr_left fun i hi => ?_
  have hlt := List.mem_range.1 hi
  rw [List.getD_eq_getElem?_getD, List.getElem?_take_of_lt (by omega), List.getD_eq_getElem?_getD]

theorem getD_padded (bytes : List UInt8) (h : i < n) :
    (padded n bytes).getD i 0 = bytes.getD i 0 := by
  rw [List.getD_eq_getElem?_getD, padded, List.getElem?_map, List.getElem?_range h]
  rfl

theorem Controller.descriptorValue_type (t : UsbDescriptorType) (i : BitVec 8) :
    (descriptorValue t i).extractLsb' 8 8 = t.value.toBitVec := by
  have hi := i.isLt
  have ht := t.value.toNat_lt
  apply BitVec.eq_of_toNat_eq
  rw [BitVec.extractLsb'_toNat, descriptorValue_toNat, Nat.shiftRight_eq_div_pow]
  change _ = t.value.toNat
  omega

theorem Controller.descriptorValue_index (t : UsbDescriptorType) (i : BitVec 8) :
    (descriptorValue t i).setWidth 8 = i := by
  have hi := i.isLt
  apply BitVec.eq_of_toNat_eq
  rw [BitVec.toNat_setWidth, descriptorValue_toNat]
  omega

namespace UsbDevice
variable {dev : UsbDevice} {peer : UsbPeer} {slot : BitVec 8} {s t : UsbState}
  {fails : Fault → UsbState → Prop}

theorem answer_getDescriptor (before : List UsbTransfer) (t : UsbDescriptorType) (i : BitVec 8)
    (langId : BitVec 16) (hlen : len < 65536) :
    dev.answer before (getDescriptor t i langId len).toEntry =
      (dev.descriptorBytes t.value.toBitVec i langId).take len := by
  have hty : SetupStageTrb.reqTypeDirDeviceToHost = 0x80 := rfl
  have hreq : SetupStageTrb.reqGetDescriptor = 6 := rfl
  rw [answer, getDescriptor, SetupStageTrb.bmRequestType_new, SetupStageTrb.request_new,
    SetupStageTrb.value_new, SetupStageTrb.index_new, SetupStageTrb.wLength_new,
    Controller.descriptorValue_type, Controller.descriptorValue_index, hty, hreq,
    if_pos ⟨rfl, rfl⟩, BitVec.toNat_ofNat, Nat.mod_eq_of_lt hlen]

theorem answer_getReportDescriptor (before : List UsbTransfer) (index : BitVec 16) :
    dev.answer before (getInterfaceDescriptor .report 0 index 4096).toEntry =
      (dev.reportDescriptor index).take 4096 := by
  have hty : ¬(SetupStageTrb.reqTypeDirDeviceToHost ||| SetupStageTrb.reqTypeToInterface = 0x80 ∧
      SetupStageTrb.reqGetDescriptor = 6) := by decide
  have hreport : SetupStageTrb.reqTypeDirDeviceToHost ||| SetupStageTrb.reqTypeToInterface = 0x81 ∧
      SetupStageTrb.reqGetDescriptor = 6 ∧ Controller.descriptorValue .report 0 = 0x2200 := by
    decide
  rw [answer, getInterfaceDescriptor, SetupStageTrb.bmRequestType_new, SetupStageTrb.request_new,
    SetupStageTrb.value_new, SetupStageTrb.index_new, SetupStageTrb.wLength_new, if_neg hty,
    if_pos hreport, BitVec.toNat_ofNat, Nat.mod_eq_of_lt (by decide)]

theorem answer_getReport (before : List UsbTransfer) :
    dev.answer before (getReport 8).toEntry = (dev.report (reportsRead before)).take 8 := by
  have hdescriptor : ¬(SetupStageTrb.reqTypeDirDeviceToHost ||| SetupStageTrb.reqTypeTypeClass |||
      SetupStageTrb.reqTypeToInterface = 0x80 ∧ SetupStageTrb.reqGetReport = 6) := by decide
  have hreport : ¬(SetupStageTrb.reqTypeDirDeviceToHost ||| SetupStageTrb.reqTypeTypeClass |||
      SetupStageTrb.reqTypeToInterface = 0x81 ∧ SetupStageTrb.reqGetReport = 6 ∧
      (0x0200 : BitVec 16) = 0x2200) := by decide
  have hclass : SetupStageTrb.reqTypeDirDeviceToHost ||| SetupStageTrb.reqTypeTypeClass |||
      SetupStageTrb.reqTypeToInterface = 0xa1 ∧ SetupStageTrb.reqGetReport = 1 := by decide
  rw [answer, getReport, SetupStageTrb.bmRequestType_new, SetupStageTrb.request_new,
    SetupStageTrb.value_new, SetupStageTrb.index_new, SetupStageTrb.wLength_new, if_neg hdescriptor,
    if_neg hreport, if_pos hclass, BitVec.toNat_ofNat, Nat.mod_eq_of_lt (by decide)]

theorem Serves.not_refused (h : dev.Serves peer slot) {setup : GenericTrbEntry} :
    ¬Refused peer slot s setup len t := by
  rintro (⟨hno, _⟩ | ⟨_, hno⟩)
  · exact hno h.rings
  · exact hno (h.ok _ _)

theorem Serves.fetch {post : α → UsbState → Prop} {f : List UInt8 → UsbM α}
    (h : dev.Serves peer slot) (setup : SetupStageTrb) (hn : n < 2 ^ 17) (hlen : len * size = n)
    (hpost : ∀ t tr, t.transfers = s.transfers ++ [tr] → tr.setup = setup.toEntry →
      Ends (f (padded n (dev.answer s.transfers setup.toEntry))) t post fails) :
    Ends (do
      let ptr ← peer.port.alloc n
      Controller.requestIn peer.port.toPort slot setup ⟨ptr, len, size⟩
      f (← peer.port.load ptr n)) s post fails := by
  refine fetch_ends setup hn hlen (fun t ht _ => ?_) fun _ _ ht => absurd ht h.not_refused
  rw [UsbPeer.answer, h.data, padded_take _ (Nat.le_refl n)]
  exact hpost t _ ht rfl

theorem reportsRead_snoc (transfers : List UsbTransfer) (tr : UsbTransfer) :
    reportsRead (transfers ++ [tr]) = reportsRead transfers +
      if tr.setup.bRequest = SetupStageTrb.reqGetReport then 1 else 0 := by
  rw [reportsRead, reportsRead, List.countP_append, List.countP_singleton]
  simp only [decide_eq_true_eq]

theorem reportsRead_other {setup : SetupStageTrb}
    (hsetup : setup.toEntry.bRequest ≠ SetupStageTrb.reqGetReport)
    (ht : t.transfers = s.transfers ++ [tr]) (htr : tr.setup = setup.toEntry) :
    reportsRead t.transfers = reportsRead s.transfers := by
  rw [ht, reportsRead_snoc, htr, if_neg hsetup, Nat.add_zero]

theorem getDescriptor_other (t : UsbDescriptorType) (i : BitVec 8) (langId : BitVec 16)
    (len : Nat) : (getDescriptor t i langId len).toEntry.bRequest ≠ SetupStageTrb.reqGetReport := by
  rw [getDescriptor, SetupStageTrb.request_new]
  decide

theorem Serves.descriptor {post : α → UsbState → Prop} {f : List UInt8 → UsbM α}
    (h : dev.Serves peer slot) (ty : UsbDescriptorType) (i : BitVec 8) (langId : BitVec 16)
    (hn : n < 65536) (hlen : len * size = n)
    (hpost : ∀ t, reportsRead t.transfers = reportsRead s.transfers →
      Ends (f (padded n (dev.descriptorBytes ty.value.toBitVec i langId))) t post fails) :
    Ends (do
      let ptr ← peer.port.alloc n
      Controller.requestIn peer.port.toPort slot (getDescriptor ty i langId n) ⟨ptr, len, size⟩
      f (← peer.port.load ptr n)) s post fails := by
  refine h.fetch _ (by omega) hlen fun t tr ht htr => ?_
  rw [answer_getDescriptor _ _ _ _ hn, padded_take _ (Nat.le_refl n)]
  exact hpost t (reportsRead_other (getDescriptor_other ty i langId n) ht htr)

theorem Serves.device {post : UsbDeviceDescriptor → UsbState → Prop} (h : dev.Serves peer slot)
    (hpost : ∀ t, reportsRead t.transfers = reportsRead s.transfers → post dev.descriptor t) :
    Ends (requestDeviceDescriptor peer.port slot) s post fails := by
  refine h.descriptor .device 0 0 (by decide) rfl fun t ht => Ends.pure ?_
  have hbytes : padded UsbDeviceDescriptor.size
      (dev.descriptorBytes UsbDescriptorType.device.value.toBitVec 0 0) = dev.descriptor.toBytes :=
    padded_eq rfl
  rw [hbytes, UsbDeviceDescriptor.fields_toBytes]
  exact hpost t ht

theorem Serves.languages {post : List (BitVec 16) → UsbState → Prop} (h : dev.Serves peer slot)
    (hpost : ∀ e t, reportsRead t.transfers = reportsRead s.transfers → e.getD 1 0 = dev.langId →
      post e t) :
    Ends (requestStringDescriptorZero peer.port slot) s post fails :=
  h.descriptor .string 0 0 (by decide) rfl fun t ht => Ends.pure (hpost _ t ht rfl)

theorem Serves.indexed {post : Option String → UsbState → Prop} {index : UInt8}
    (h : dev.Serves peer slot)
    (hpost : ∀ t, reportsRead t.transfers = reportsRead s.transfers → post (dev.string index) t) :
    Ends (requestIndexed peer.port slot dev.langId index) s post fails := by
  rw [requestIndexed]
  by_cases hzero : index = 0
  · have hpost := hpost s rfl
    rw [string, if_neg (not_not.2 hzero)] at hpost
    rw [if_neg (not_not.2 hzero)]
    exact hpost
  · rw [if_pos hzero, map_eq_pure_bind]
    refine Ends.bind (h.descriptor .string index.toBitVec dev.langId (by decide) rfl fun t ht => ?_)
    have hpost := hpost t ht
    have hindex : index.toBitVec ≠ 0 := fun he => hzero (UInt8.toBitVec_inj.1 he)
    have hbytes : dev.descriptorBytes UsbDescriptorType.string.value.toBitVec index.toBitVec
        dev.langId = dev.text index.toBitVec dev.langId := if_neg hindex
    rw [string, if_pos hzero, ← hbytes] at hpost
    exact Ends.pure hpost

/-- The first descriptor tells the length of them all. -/
theorem totalLength_eq (dev : UsbDevice) :
    (ConfigDescriptor.fields (padded 9 dev.configBytes)).1.totalLength.toNat =
      dev.configBytes.length := by
  obtain ⟨d, ds, hconfig, htype, hlen⟩ := dev.head
  have hnine : 9 ≤ d.bytes.length := by
    have hmin := d.minLength_le
    rwa [minLength_config htype] at hmin
  have hbytes : dev.configBytes = d.bytes ++ ds.flatMap Descriptor.bytes := by
    rw [configBytes, hconfig, List.flatMap_cons]
  have hle : readLe ((padded 9 dev.configBytes).getD · 0) 2 2 = d.le 2 2 := by
    refine readLe_congr fun b hlo hhi => ?_
    rw [getD_padded _ (by omega), hbytes, d.byte_append _ (by omega)]
  have hlt : d.le 2 2 < 65536 := readLe_lt _ 2 2
  rw [ConfigDescriptor.fields_eq, hle, UInt16.toNat_ofNat', Nat.mod_eq_of_lt hlt, hlen]
  rfl

theorem Serves.config {post : List UsbDescriptor → UsbState → Prop} (h : dev.Serves peer slot)
    (hfuel : dev.config.length < fuel)
    (hpost : ∀ t, reportsRead t.transfers = reportsRead s.transfers → post dev.descriptors t) :
    Ends (requestConfigDescriptorAndRest peer.port slot fuel) s post fails := by
  rw [requestConfigDescriptorAndRest]
  refine h.descriptor .config 0 0 (by decide) rfl fun t ht => ?_
  have hlen : (ConfigDescriptor.fields (padded 9 (dev.descriptorBytes
      UsbDescriptorType.config.value.toBitVec 0 0))).1.totalLength.toNat =
        dev.configBytes.length := dev.totalLength_eq
  have hlt : dev.configBytes.length < 65536 := by
    rw [← hlen]
    exact UInt16.toNat_lt _
  have hone : getDescriptor .config 0 0 (dev.configBytes.length * 1) =
      getDescriptor .config 0 0 dev.configBytes.length := by
    rw [Nat.mul_one]
  have hanswer := dev.answer_getDescriptor t.transfers .config 0 0 hlt
  have hbytes : padded dev.configBytes.length (dev.descriptorBytes
      UsbDescriptorType.config.value.toBitVec 0 0) = dev.configBytes := padded_eq rfl
  dsimp only
  rw [hlen]
  refine h.fetch (getDescriptor .config 0 0 (dev.configBytes.length * 1)) (by omega)
    (Nat.mul_one _) fun u tr hu htr => ?_
  have hcollect := DescriptorIterator.collect_from [] dev.config hfuel
  rw [hone] at htr ⊢
  have hread : padded dev.configBytes.length (dev.answer t.transfers
      (getDescriptor .config 0 0 dev.configBytes.length).toEntry) = dev.configBytes := by
    rw [hanswer]
    exact (padded_take _ (Nat.le_refl _)).trans hbytes
  rw [hread]
  have hiter : DescriptorIterator.collect fuel (.new dev.configBytes) = .ok dev.descriptors
    ⟨dev.configBytes, dev.configBytes.length⟩ := hcollect
  rw [hiter]
  exact hpost u ((reportsRead_other (getDescriptor_other _ _ _ _) hu htr).trans ht)

theorem Serves.keyboardRounds {ptr : BitVec 64} (h : dev.Serves peer slot)
    (hmem : s.mem = zeroFill m ptr.toNat 8) (rounds : Nat) (logs : List KeyLog)
    (prevPressed : Finset UInt8) :
    Ends (Wasabi.keyboardRounds peer.port.toPort slot ptr (do
        let bytes ← peer.port.load ptr 8
        peer.port.clear ptr 8
        return bytes) rounds logs prevPressed) s (fun logs' _ => logs' =
      (((List.range' (reportsRead s.transfers) rounds).map fun k => padded 8 (dev.report k)).foldl
        (fun s report =>
          let (logs, pressed) := keyboardRound s.2 report
          (s.1 ++ logs, pressed)) (logs, prevPressed)).1) fails := by
  induction rounds generalizing s m logs prevPressed with
  | zero => exact Ends.pure rfl
  | succ rounds ih =>
    have hlen : 8 * 1 < 2 ^ 17 := by decide
    refine Ends.bind (Ends.bind ?_)
    refine requestIn_ends (getReport 8) ⟨ptr, 8, 1⟩ hlen (fun t ht => box_ends ?_)
      fun _ _ ht => absurd ht h.not_refused
    have hload : (List.range 8).map (fun i => t.mem (ptr.toNat + i)) =
        padded 8 (dev.report (reportsRead s.transfers)) := by
      rw [ht.mem, hmem, load_padded, UsbPeer.answer, h.data, answer_getReport]
      exact (padded_take _ (Nat.le_refl 8)).trans (padded_take _ (Nat.le_refl 8))
    have hcount : reportsRead t.transfers = reportsRead s.transfers + 1 := by
      have hsetup : (getReport 8).toEntry.bRequest = SetupStageTrb.reqGetReport :=
        SetupStageTrb.request_new
      rw [ht.transfers, reportsRead_snoc]
      exact congrArg _ (if_pos hsetup)
    rw [hload, List.range'_succ, List.map_cons, List.foldl_cons, ← hcount]
    exact ih rfl _ _

theorem storeBytes_nil (m : Mem) (p : Nat) : storeBytes m p [] = m := by
  funext a
  rw [storeBytes]
  exact if_neg fun h => absurd h.2 (Nat.not_lt.2 h.1)

theorem Serves.runKeyboard (h : dev.Serves peer slot) (hnone : reportsRead s.transfers = 0)
    (rounds : Nat) :
    Ends (runUsbKeyboard peer.port slot rounds dev.descriptors) s
      (fun logs _ => (pickInterfaceWithTriple dev.descriptors (3, 1, 1)).isSome = true ∧
        logs = (keyboardLoop (dev.reports rounds)).1)
      fun e t => ∃ msg, e = .err msg ∧
        (pickInterfaceWithTriple dev.descriptors (3, 1, 1)).isSome = false ∧
          reportsRead t.transfers = 0 := by
  refine Ends.bind (alloc_ends ?_)
  rw [startUsbKeyboard]
  split
  · next hpick => exact Ends.throw ⟨_, rfl, by rw [hpick]; rfl, hnone⟩
  · next c i eps hpick =>
    refine Ends.bind (requestSet_ends (setProtocol c.configValue.toBitVec 0)
      (fun t ht => ?_) fun _ _ ht => absurd ht h.not_refused)
    have hmem : t.mem = zeroFill s.mem (peer.place s.boxes).toNat 8 := by
      rw [ht.mem, UsbPeer.answer, List.take_zero, storeBytes_nil]
    have hother : (setProtocol c.configValue.toBitVec 0).toEntry.bRequest ≠
        SetupStageTrb.reqGetReport := by
      rw [setProtocol, SetupStageTrb.request_new]
      decide
    have hcount : reportsRead t.transfers = 0 :=
      (reportsRead_other hother ht.transfers rfl).trans hnone
    refine (h.keyboardRounds hmem rounds [] ∅).mono (fun logs u hlogs => ?_) fun _ _ he => he
    rw [hcount, ← List.range_eq_range'] at hlogs
    exact ⟨by rw [hpick]; rfl, hlogs⟩

theorem Serves.tablet (h : dev.Serves peer slot) :
    Ends (startUsbTablet peer.port slot dev.descriptor dev.descriptors) s
      (fun report _ => dev.tabletDriver = .tablet report)
      fun e _ => ∃ msg, e = .err msg ∧ dev.tabletDriver = .none := by
  rw [startUsbTablet, tabletDriver]
  by_cases htablet : dev.IsTablet
  · obtain ⟨hclass, hsubclass, hprotocol, hvendor, hproduct⟩ := htablet
    rw [if_neg (by simp [hclass, hsubclass, hprotocol, hvendor, hproduct]),
      if_pos ⟨hclass, hsubclass, hprotocol, hvendor, hproduct⟩]
    cases hpick : pickInterfaceWithTriple dev.descriptors (3, 0, 0) with
    | none => exact Ends.throw ⟨_, rfl, rfl⟩
    | some found =>
      obtain ⟨c, i, eps⟩ := found
      dsimp only
      rw [requestHidReportDescriptor_eq]
      refine h.fetch _ (by omega) (Nat.mul_one _) fun t tr ht htr => Ends.pure ?_
      rw [answer_getReportDescriptor, padded_take _ (Nat.le_refl 4096)]
  · have hother : dev.descriptor.deviceClass ≠ 0 ∨ dev.descriptor.deviceSubclass ≠ 0 ∨
        dev.descriptor.deviceProtocol ≠ 0 ∨ dev.descriptor.venderId ≠ 0x0627 ∨
        dev.descriptor.productId ≠ 0x0001 := by
      unfold IsTablet at htablet
      simpa only [not_and_or] using htablet
    rw [if_pos hother, if_neg htablet]
    exact Ends.throw ⟨_, rfl, rfl⟩

theorem Serves.driver (h : dev.Serves peer slot) (hnone : reportsRead s.transfers = 0)
    (rounds : Nat) :
    Ends (startDriver peer.port slot rounds dev.descriptor dev.descriptors) s
      (fun driver _ => driver = dev.driver rounds) fails := by
  refine Ends.bind (attempt_ends ((h.runKeyboard hnone rounds).mono ?_ ?_))
  · rintro logs t ⟨hpick, rfl⟩
    refine Ends.pure ?_
    rw [UsbDevice.driver, if_pos hpick]
  · rintro e t ⟨msg, rfl, hpick, _⟩
    refine ⟨msg, rfl, Ends.bind (attempt_ends ((h.tablet).mono ?_ ?_))⟩
    · intro report u htablet
      refine Ends.pure ?_
      rw [UsbDevice.driver, hpick, if_neg Bool.false_ne_true]
      exact htablet.symm
    · rintro e u ⟨msg, rfl, htablet⟩
      refine ⟨msg, rfl, Ends.pure ?_⟩
      rw [UsbDevice.driver, hpick, if_neg Bool.false_ne_true]
      exact htablet.symm

end UsbDevice

/-- A device that answers as it should is found to be what it is. -/
theorem enumeration_faithful (dev : UsbDevice) (h : dev.Serves peer slot)
    (hfuel : dev.config.length < fuel) (rounds : Nat) (mem : Mem) :
    ∃ t, runDevice peer.port slot fuel rounds ⟨[], [], mem, 0⟩ =
      .ok (dev.descriptor, some (dev.info rounds)) t := by
  have hends : Ends (runDevice peer.port slot fuel rounds) ⟨[], [], mem, 0⟩
      (fun found _ => found = (dev.descriptor, some (dev.info rounds))) fun _ _ => False := by
    refine Ends.bind (h.device fun s hs => Ends.bind (attempt_ends (h.languages
      fun e s₁ h₁ he => ?_)))
    dsimp only
    rw [he]
    refine Ends.bind (h.indexed fun s₂ h₂ => Ends.bind (h.indexed fun s₃ h₃ => Ends.bind
      (h.indexed fun s₄ h₄ => Ends.bind (h.config hfuel fun s₅ h₅ => Ends.bind ?_))))
    have hnone : UsbDevice.reportsRead s₅.transfers = 0 := by
      rw [h₅, h₄, h₃, h₂, h₁, hs]
      rfl
    refine (h.driver hnone rounds).mono (fun driver t hdriver => Ends.pure ?_) fun _ _ he => he
    rw [hdriver]
    rfl
  obtain ⟨found, t, hrun, rfl⟩ := hends.returns fun _ _ hf => hf
  exact ⟨t, hrun⟩

def usbKeyboard : UsbDevice where
  descriptor := ⟨18, 1, 0x0200, 0, 0, 0, 8, 0x0627, 0x0002, 0, 1, 2, 0, 1⟩
  languages := [4, 3, 0x09, 0x04]
  text index _ := [4, 3, 0x40 + ⟨index⟩, 0]
  config := [⟨[9, 2, 34, 0, 1, 1, 0, 0xa0, 50], by decide, by decide, by decide⟩,
    ⟨[9, 4, 0, 0, 1, 3, 1, 1, 0], by decide, by decide, by decide⟩,
    ⟨[9, 0x21, 0x11, 1, 33, 1, 0x22, 65, 0], by decide, by decide, by decide⟩,
    ⟨[7, 5, 0x81, 3, 8, 0, 10], by decide, by decide, by decide⟩]
  reportDescriptor _ := []
  report n := if n % 2 = 0 then [0, 0, 4, 0, 0, 0, 0, 0] else []
  head := ⟨_, _, rfl, by decide, by decide⟩

def keyboardPeer : UsbPeer :=
  ⟨9, fun _ => 0x1000, usbKeyboard.answer, fun _ _ => ⟨0, 0x01000000, 0x8000⟩⟩

theorem keyboardPeer_serves : usbKeyboard.Serves keyboardPeer 1 := by
  have hok : (⟨0, 0x01000000, 0x8000⟩ : GenericTrbEntry).transferResultOk = .ok () := by decide
  exact ⟨by decide, fun _ _ => rfl, fun _ _ => hok⟩

theorem enumeration_faithful_keyboard :
    ∃ t, runDevice keyboardPeer.port 1 5 2 ⟨[], [], fun _ => 0, 0⟩ =
      .ok (usbKeyboard.descriptor, some (usbKeyboard.info 2)) t :=
  have hfuel : usbKeyboard.config.length < 5 := by decide
  enumeration_faithful usbKeyboard keyboardPeer_serves hfuel 2 fun _ => 0

end Wasabi
