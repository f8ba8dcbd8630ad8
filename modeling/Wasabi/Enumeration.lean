import Wasabi.RegisterTrace
import Wasabi.UsbBus

namespace Wasabi
set_option autoImplicit true

open SetupStageTrb (getDescriptor getReport setProtocol getInterfaceDescriptor)
open SetupStageTrb (request_new index_new)

namespace UsbTransfer

instance (tr : UsbTransfer) : Decidable tr.Ok :=
  match h : tr.event.transferResultOk with
  | .ok _ => isTrue h
  | .error _ => isFalse fun hok => by cases h.symm.trans hok

def device (tr : UsbTransfer) : UsbDeviceDescriptor :=
  (UsbDeviceDescriptor.fields (padded UsbDeviceDescriptor.size tr.data)).1

def langId (tr : UsbTransfer) : BitVec 16 := u16At (padded 16 tr.data) 1

def totalLength (tr : UsbTransfer) : Nat :=
  (ConfigDescriptor.fields (padded 9 tr.data)).1.totalLength.toNat

end UsbTransfer

/-- The strings that there are: an index of zero stands for none. -/
def stringsOf (indices : List UInt8) : List (BitVec 8) :=
  (indices.filter (· ≠ 0)).map UInt8.toBitVec

def UsbDeviceDescriptor.strings (this : UsbDeviceDescriptor) : List (BitVec 8) :=
  stringsOf [this.manufacturerIdx, this.productIdx, this.serialIdx]

/-- How far a device has got, with what it has told about the requests that follow. -/
inductive EnumPhase where
  | start
  | described (strings : List (BitVec 8))
  | naming (langId : BitVec 16) (strings : List (BitVec 8))
  | sized (len : Nat)
  | configured
  | keyboard
  | refused
  | ended
  deriving DecidableEq, Repr

namespace EnumPhase

def after (setup : SetupStageTrb) (tr : UsbTransfer) (ok failed : EnumPhase) : Option EnumPhase :=
  if tr.setup = setup.toEntry then some (if tr.Ok then ok else failed) else none

/-- The order of the transfers: the device, the languages, the strings that there are, the head of
the configuration, all of it, and then a keyboard or, if that is none, a tablet. There is no
transfer after one that has failed, except for the tablet after the keyboard. -/
def next : EnumPhase → UsbTransfer → Option EnumPhase
  | start, tr => after (getDescriptor .device 0 0 18) tr (described tr.device.strings) ended
  | described strings, tr =>
    after (getDescriptor .string 0 0 16) tr (naming tr.langId strings) ended
  | naming langId (index :: strings), tr =>
    after (getDescriptor .string index langId 128) tr (naming langId strings) ended
  | naming _ [], tr => after (getDescriptor .config 0 0 9) tr (sized tr.totalLength) ended
  | sized len, tr => after (getDescriptor .config 0 0 len) tr configured ended
  | configured, tr =>
    (after (setProtocol (tr.setup.wIndex.setWidth 8) 0) tr keyboard refused).or
      (after (getInterfaceDescriptor .report 0 tr.setup.wIndex 4096) tr ended ended)
  | keyboard, tr => after (getReport 8) tr keyboard refused
  | refused, tr => after (getInterfaceDescriptor .report 0 tr.setup.wIndex 4096) tr ended ended
  | ended, _ => none

def rules : Rules EnumPhase UsbTransfer := ⟨start, next⟩

end EnumPhase

def Enumerating (p : EnumPhase) (s : UsbState) : Prop :=
  EnumPhase.rules.phase s.transfers = some p

def UsbDriver.Fits : UsbDriver → EnumPhase → Prop
  | .keyboard _, p => p = .keyboard
  | .tablet _, p => p = .ended
  | .none, p => p = .configured ∨ p = .refused ∨ p = .ended

section
variable {peer : UsbPeer} {s t : UsbState} {slot : BitVec 8} {p q r : EnumPhase}
  {setup : SetupStageTrb} {fails : Fault → UsbState → Prop}

theorem Enumerating.step (h : Enumerating p s) (hnext : p.next tr = some q)
    (ht : t.transfers = s.transfers ++ [tr]) : Enumerating q t := by
  rw [Enumerating, ht]
  exact (Rules.phase_snoc h tr).trans hnext

theorem EnumPhase.after_ok {tr : UsbTransfer} (hsetup : tr.setup = setup.toEntry) (hok : tr.Ok) :
    after setup tr q r = some q := by
  rw [after, if_pos hsetup, if_pos hok]

theorem EnumPhase.after_failed {tr : UsbTransfer} (hsetup : tr.setup = setup.toEntry)
    (hok : ¬tr.Ok) : after setup tr q r = some r := by
  rw [after, if_pos hsetup, if_neg hok]

theorem EnumPhase.after_other {tr : UsbTransfer} (hsetup : tr.setup ≠ setup.toEntry) :
    after setup tr q r = none := if_neg hsetup

/-- A driver asks for nothing that the other one asks for. -/
theorem setProtocol_ne (index : BitVec 16) (interfaceNumber protocol : BitVec 8) :
    (getInterfaceDescriptor .report 0 index len).toEntry ≠
      (setProtocol interfaceNumber protocol).toEntry := by
  intro h
  have hreq := congrArg GenericTrbEntry.bRequest h
  rw [getInterfaceDescriptor, setProtocol, request_new, request_new] at hreq
  exact absurd hreq (by decide)

theorem EnumPhase.next_setProtocol {tr : UsbTransfer}
    (h : tr.setup = (setProtocol interfaceNumber 0).toEntry) :
    configured.next tr = some (if tr.Ok then keyboard else EnumPhase.refused) := by
  have hindex : tr.setup.wIndex.setWidth 8 = interfaceNumber := by
    rw [h, setProtocol, index_new]
    exact BitVec.setWidth_setWidth_of_le _ (by decide) |>.trans (BitVec.setWidth_eq _)
  rw [next, hindex, after, if_pos h, Option.some_or]

theorem EnumPhase.next_reportDescriptor {tr : UsbTransfer}
    (hp : p = configured ∨ p = EnumPhase.refused)
    (h : tr.setup = (getInterfaceDescriptor .report 0 index 4096).toEntry) :
    p.next tr = some ended := by
  have hindex : tr.setup.wIndex = index := by
    rw [h]
    exact index_new
  have hover : after (getInterfaceDescriptor .report 0 index 4096) tr ended ended = some ended := by
    rw [after, if_pos h, ite_self]
  rcases hp with rfl | rfl
  · rw [next, hindex, hover, after_other (by rw [h]; exact setProtocol_ne index _ _),
      Option.none_or]
  · rw [next, hindex, hover]

theorem Enumerating.refused (h : Enumerating p s) (hslot : slot.toNat < peer.doorbells)
    (hnext : ∀ tr, tr.setup = setup.toEntry → ¬tr.Ok → p.next tr = some r)
    (ht : Refused peer slot s setup.toEntry n t) : Enumerating r t := by
  rcases ht with ⟨hno, _⟩ | ⟨ht, hok⟩
  · exact absurd hslot hno
  · exact h.step (hnext _ rfl hok) ht

theorem Enumerating.fetch {post : α → UsbState → Prop} {f : List UInt8 → UsbM α}
    {q : UsbTransfer → EnumPhase} (h : Enumerating p s) (setup : SetupStageTrb)
    (hslot : slot.toNat < peer.doorbells)
    (hnext : ∀ tr, p.next tr = EnumPhase.after setup tr (q tr) r) (hn : n < 2 ^ 17)
    (hlen : len * size = n)
    (hpost : ∀ t tr, Enumerating (q tr) t → Ends (f (padded n tr.data)) t post fails)
    (hfail : ∀ msg t, Enumerating r t → fails (.err msg) t) :
    Ends (do
      let ptr ← peer.port.alloc n
      Controller.requestIn peer.port.toPort slot setup ⟨ptr, len, size⟩
      f (← peer.port.load ptr n)) s post fails := by
  refine fetch_ends setup hn hlen (fun t ht hok => hpost t _ (h.step ?_ ht)) fun msg t ht => ?_
  · exact (hnext _).trans (EnumPhase.after_ok rfl hok)
  · exact hfail msg t (h.refused hslot (fun tr hs hno =>
      (hnext tr).trans (EnumPhase.after_failed hs hno)) ht)

theorem requestHidReportDescriptor_eq (interfaceNumber : UInt8) :
    requestHidReportDescriptor peer.port slot interfaceNumber = (do
      let ptr ← peer.port.alloc 4096
      Controller.requestIn peer.port.toPort slot
        (getInterfaceDescriptor .report 0 (interfaceNumber.toBitVec.setWidth 16) 4096)
        ⟨ptr, 4096, 1⟩
      peer.port.load ptr 4096 >>= pure) := by
  simp only [bind_pure]
  rfl

section
variable (hslot : slot.toNat < peer.doorbells)
include hslot

theorem Enumerating.device {post : UsbDeviceDescriptor → UsbState → Prop}
    (h : Enumerating .start s)
    (hpost : ∀ d t, Enumerating (.described d.strings) t → post d t)
    (hfail : ∀ msg t, Enumerating .ended t → fails (.err msg) t) :
    Ends (requestDeviceDescriptor peer.port slot) s post fails :=
  h.fetch (getDescriptor .device 0 0 18) hslot (fun _ => rfl) (by decide) rfl
    (fun t tr ht => Ends.pure (hpost _ t ht)) hfail

theorem Enumerating.languages {post : List (BitVec 16) → UsbState → Prop}
    (h : Enumerating (.described strings) s)
    (hpost : ∀ e t, Enumerating (.naming (e.getD 1 0) strings) t → post e t)
    (hfail : ∀ msg t, Enumerating .ended t → fails (.err msg) t) :
    Ends (requestStringDescriptorZero peer.port slot) s post fails :=
  h.fetch (getDescriptor .string 0 0 16) hslot (fun _ => rfl) (by decide) rfl
    (fun t tr ht => Ends.pure (hpost _ t ht)) hfail

theorem Enumerating.string {post : String → UsbState → Prop}
    (h : Enumerating (.naming langId (index :: strings)) s)
    (hpost : ∀ text t, Enumerating (.naming langId strings) t → post text t)
    (hfail : ∀ msg t, Enumerating .ended t → fails (.err msg) t) :
    Ends (requestString peer.port slot langId index) s post fails :=
  h.fetch (getDescriptor .string index langId 128) hslot (fun _ => rfl) (by decide) rfl
    (fun t _ ht => Ends.pure (hpost _ t ht)) hfail

theorem Enumerating.indexed {post : Option String → UsbState → Prop} {index : UInt8}
    (h : Enumerating (.naming langId (stringsOf (index :: indices))) s)
    (hpost : ∀ text t, Enumerating (.naming langId (stringsOf indices)) t → post text t)
    (hfail : ∀ msg t, Enumerating .ended t → fails (.err msg) t) :
    Ends (requestIndexed peer.port slot langId index) s post fails := by
  rw [requestIndexed]
  by_cases hzero : index = 0
  · rw [if_neg (not_not.2 hzero)]
    rw [stringsOf, List.filter_cons_of_neg (by simp [hzero])] at h
    exact hpost none s h
  · rw [if_pos hzero, map_eq_pure_bind]
    rw [stringsOf, List.filter_cons_of_pos (by simp [hzero])] at h
    exact Ends.bind (h.string hslot (fun text t ht => hpost (some text) t ht) hfail)

theorem Enumerating.config {post : List UsbDescriptor → UsbState → Prop}
    (h : Enumerating (.naming langId []) s)
    (hpost : ∀ ds t, Enumerating .configured t → post ds t)
    (hfail : ∀ e p t, Enumerating p t → fails e t) :
    Ends (requestConfigDescriptorAndRest peer.port slot fuel) s post fails := by
  rw [requestConfigDescriptorAndRest]
  refine h.fetch (getDescriptor .config 0 0 9) (q := fun tr => .sized tr.totalLength)
    hslot (fun _ => rfl) (by decide) rfl (fun t tr ht => ?_) fun msg t ht => hfail _ _ t ht
  have hlt : tr.totalLength < 65536 := UInt16.toNat_lt _
  have hlen : (ConfigDescriptor.fields (padded 9 tr.data)).1.totalLength.toNat = tr.totalLength :=
    rfl
  dsimp only
  rw [hlen]
  generalize tr.totalLength = len at ht hlt
  have hone : getDescriptor .config 0 0 (len * 1) = getDescriptor .config 0 0 len := by
    rw [Nat.mul_one]
  refine ht.fetch (getDescriptor .config 0 0 (len * 1)) (q := fun _ => .configured) hslot
    (fun _ => by rw [hone]; rfl) (by omega) (Nat.mul_one _) (fun u tr' hu => ?_)
    fun msg t ht => hfail _ _ t ht
  cases DescriptorIterator.collect fuel (.new (padded len tr'.data)) with
  | ok ds it => exact hpost ds u hu
  | error e it => exact hfail e _ u hu

theorem Enumerating.reportDescriptor {post : List UInt8 → UsbState → Prop}
    (h : Enumerating p s) (hp : p = .configured ∨ p = .refused) (interfaceNumber : UInt8)
    (hover : ∀ report t, Enumerating .ended t → post report t)
    (hfail : ∀ msg t, Enumerating .ended t → fails (.err msg) t) :
    Ends (requestHidReportDescriptor peer.port slot interfaceNumber) s post fails := by
  have hnext : ∀ tr, tr.setup =
      (getInterfaceDescriptor .report 0 (interfaceNumber.toBitVec.setWidth 16) 4096).toEntry →
      p.next tr = some .ended := fun tr htr => EnumPhase.next_reportDescriptor hp htr
  rw [requestHidReportDescriptor_eq]
  refine fetch_ends
    (getInterfaceDescriptor .report 0 (interfaceNumber.toBitVec.setWidth 16) 4096)
    (by omega) (Nat.mul_one _) (fun t ht _ => Ends.pure ?_) fun msg t ht => ?_
  · exact hover _ t (h.step (hnext (peer.answer s _ 4096) rfl) ht)
  · exact hfail msg t (h.refused hslot (fun tr htr _ => hnext tr htr) ht)

theorem Enumerating.keyboardRounds {ptr : BitVec 64} (h : Enumerating .keyboard s) (rounds : Nat)
    (logs : List KeyLog) (prevPressed : Finset UInt8) :
    Ends (Wasabi.keyboardRounds peer.port.toPort slot ptr (do
        let bytes ← peer.port.load ptr 8
        peer.port.clear ptr 8
        return bytes) rounds logs prevPressed) s (fun _ t => Enumerating .keyboard t)
      fun e t => ∃ msg, e = .err msg ∧ Enumerating .refused t := by
  induction rounds generalizing s logs prevPressed with
  | zero => exact Ends.pure h
  | succ rounds ih =>
    have hlen : 8 * 1 < 2 ^ 17 := by decide
    refine Ends.bind (Ends.bind ?_)
    refine requestIn_ends (getReport 8) ⟨ptr, 8, 1⟩ hlen
      (fun t ht => box_ends (ih ?_ _ _)) fun msg t ht => ⟨msg, rfl, ?_⟩
    · exact h.step (EnumPhase.after_ok rfl ht.ok) ht.transfers
    · exact h.refused hslot (fun tr htr hno => EnumPhase.after_failed htr hno) ht

theorem Enumerating.runKeyboard (h : Enumerating .configured s) (rounds : Nat)
    (ds : List UsbDescriptor) :
    Ends (runUsbKeyboard peer.port slot rounds ds) s (fun _ t => Enumerating .keyboard t)
      fun e t => ∃ msg, e = .err msg ∧ (Enumerating .configured t ∨ Enumerating .refused t) := by
  refine Ends.bind (alloc_ends ?_)
  rw [startUsbKeyboard]
  split
  · exact Ends.throw ⟨_, rfl, .inl h⟩
  · next c _ _ _ =>
    have hnext : ∀ tr : UsbTransfer,
        tr.setup = (setProtocol c.configValue.toBitVec 0).toEntry →
        EnumPhase.configured.next tr = some (if tr.Ok then .keyboard else .refused) :=
      fun tr htr => EnumPhase.next_setProtocol htr
    refine Ends.bind (requestSet_ends (setProtocol c.configValue.toBitVec 0)
      (fun t ht => ?_) fun msg t ht => ⟨msg, rfl, .inr ?_⟩)
    · have hok : (peer.answer s (setProtocol c.configValue.toBitVec 0).toEntry 0).Ok :=
        ht.ok
      have hkeyboard :=
        hnext (peer.answer s (setProtocol c.configValue.toBitVec 0).toEntry 0) rfl
      rw [if_pos hok] at hkeyboard
      refine (Enumerating.keyboardRounds hslot (h.step hkeyboard ht.transfers) _ _ _).mono
        (fun _ _ hk => hk) fun e u hu => ?_
      obtain ⟨msg, he, hrefused⟩ := hu
      exact ⟨msg, he, .inr hrefused⟩
    · exact h.refused hslot (fun tr htr hno => by rw [hnext tr htr, if_neg hno]) ht

theorem Enumerating.tablet (h : Enumerating p s) (hp : p = .configured ∨ p = .refused)
    (d : UsbDeviceDescriptor) (ds : List UsbDescriptor) :
    Ends (startUsbTablet peer.port slot d ds) s (fun _ t => Enumerating .ended t)
      fun e t => ∃ msg, e = .err msg ∧ (Enumerating p t ∨ Enumerating .ended t) := by
  rw [startUsbTablet]
  split
  · exact Ends.throw ⟨_, rfl, .inl h⟩
  · split
    · exact Ends.throw ⟨_, rfl, .inl h⟩
    · exact h.reportDescriptor hslot hp _ (fun _ _ ht => ht) fun msg t ht => ⟨msg, rfl, .inr ht⟩

theorem Enumerating.driver (h : Enumerating .configured s) (rounds : Nat)
    (d : UsbDeviceDescriptor) (ds : List UsbDescriptor) :
    Ends (startDriver peer.port slot rounds d ds) s
      (fun driver t => ∃ p, Enumerating p t ∧ driver.Fits p) fails := by
  have htablet : ∀ p t, Enumerating p t → p = .configured ∨ p = .refused →
      ∀ k : Option (List UInt8) → EStateM Fault UsbState UsbDriver,
      (∀ report, k (some report) = pure (.tablet report)) → k none = pure .none →
      Ends (attempt (startUsbTablet peer.port slot d ds) >>= k) t
        (fun driver t => ∃ p, Enumerating p t ∧ driver.Fits p) fails := by
    intro p t ht hp k hsome hnone
    refine Ends.bind (attempt_ends ((ht.tablet hslot hp d ds).mono (fun _ u hu => ?_) ?_))
    · rw [hsome]
      exact ⟨.ended, hu, rfl⟩
    · rw [hnone]
      rintro e u ⟨msg, rfl, hu | hu⟩
      · exact ⟨msg, rfl, p, hu, hp.imp_right .inl⟩
      · exact ⟨msg, rfl, .ended, hu, .inr (.inr rfl)⟩
  refine Ends.bind (attempt_ends ((h.runKeyboard hslot rounds ds).mono (fun _ t ht => ?_) ?_))
  · exact ⟨.keyboard, ht, rfl⟩
  · rintro e t ⟨msg, rfl, ht | ht⟩
    · exact ⟨msg, rfl, htablet _ t ht (.inl rfl) _ (fun _ => rfl) rfl⟩
    · exact ⟨msg, rfl, htablet _ t ht (.inr rfl) _ (fun _ => rfl) rfl⟩

end

end

/-- Whatever the device sends and the controller answers, the transfers come in order. -/
theorem enumeration_ordered (peer : UsbPeer) (slot : BitVec 8) (fuel rounds : Nat) (mem : Mem) :
    Ends (runDevice peer.port slot fuel rounds) ⟨[], [], mem, 0⟩
      (fun found t => ∃ p, EnumPhase.rules.phase t.transfers = some p ∧
        ∀ info, found.2 = some info → info.driver.Fits p)
      fun _ t => ∃ p, EnumPhase.rules.phase t.transfers = some p := by
  have hstart : Enumerating .start ⟨[], [], mem, 0⟩ := rfl
  by_cases hslot : slot.toNat < peer.doorbells
  · refine Ends.bind (hstart.device hslot (fun d s hs => ?_) fun _ t ht => ⟨_, ht⟩)
    refine Ends.bind (attempt_ends (hs.languages hslot (fun e s hs => ?_) ?_))
    · refine Ends.bind (hs.indexed hslot (fun vendor s hs => ?_) fun _ t ht => ⟨_, ht⟩)
      refine Ends.bind (hs.indexed hslot (fun product s hs => ?_) fun _ t ht => ⟨_, ht⟩)
      refine Ends.bind (hs.indexed hslot (fun serial s hs => ?_) fun _ t ht => ⟨_, ht⟩)
      refine Ends.bind (hs.config hslot (fun ds s hs => ?_) fun _ p t ht => ⟨p, ht⟩)
      refine Ends.bind ((hs.driver hslot rounds d ds).mono ?_ fun _ t ht => ht)
      rintro driver t ⟨p, ht, hfits⟩
      exact ⟨p, ht, fun info hinfo => by cases hinfo; exact hfits⟩
    · exact fun msg t ht => ⟨msg, rfl, .ended, ht, nofun⟩
  · refine Ends.bind (Ends.bind (alloc_ends (Ends.bind (requestIn_unrung hslot fun t ht => ?_))))
    exact ⟨.start, by rw [ht]; rfl⟩

end Wasabi
