import Wasabi.DeviceInit
import Wasabi.UsbRequests

namespace Wasabi
set_option autoImplicit true

/-- A transfer that a request has waited for: what the device was asked, what it sent and the event
at its end. -/
structure UsbTransfer where
  setup : GenericTrbEntry
  data : List UInt8
  event : GenericTrbEntry
  deriving DecidableEq, Repr

/-- The other side of the requests, which may depend on all that happened before: where the
allocator puts the boxes, the bytes that the device sends and the events of the controller. -/
structure UsbPeer where
  doorbells : Nat
  place : Nat → BitVec 64
  data : List UsbTransfer → GenericTrbEntry → List UInt8
  event : List UsbTransfer → GenericTrbEntry → GenericTrbEntry

structure UsbState where
  pushed : List GenericTrbEntry
  transfers : List UsbTransfer
  mem : Mem
  boxes : Nat

def UsbState.push (s : UsbState) (trb : GenericTrbEntry) : UsbState :=
  { s with pushed := s.pushed ++ [trb] }

abbrev UsbM := EStateM Fault UsbState

namespace UsbPeer
variable (peer : UsbPeer)

/-- What the device sends for an entry: as much as a data stage in its direction has room for. -/
def sends (s : UsbState) (setup trb : GenericTrbEntry) : List UInt8 :=
  if trb.kind = TrbType.dataStage.value ∧ trb.dirIn then
    (peer.data s.transfers setup).take (trb.option.toNat % 2 ^ 17)
  else []

/-- The controller carries out the transfer that the entry at `ptr` is part of, behind its setup
stage: it writes to the address that the entry holds. -/
def transfer (s : UsbState) (ptr : Nat) : UsbState × GenericTrbEntry :=
  let setup := s.pushed.getD (ptr - 1) .default
  let trb := s.pushed.getD ptr .default
  let bytes := peer.sends s setup trb
  let event := peer.event s.transfers setup
  ({ s with transfers := s.transfers ++ [⟨setup, bytes, event⟩]
            mem := storeBytes s.mem trb.data.toNat bytes }, event)

def port : UsbPort UsbM where
  push trb := do
    let s ← get
    set (s.push trb)
    return s.pushed.length
  notifyEp slot dci := MonadExcept.ofExcept (Controller.notifyEp peer.doorbells slot dci)
  wait ptr := do
    let (s, event) := peer.transfer (← get) ptr
    set s
    return event
  alloc n := do
    let s ← get
    set { s with mem := zeroFill s.mem (peer.place s.boxes).toNat n, boxes := s.boxes + 1 }
    return peer.place s.boxes
  load ptr n := do
    let s ← get
    return (List.range n).map fun i => s.mem (ptr.toNat + i)
  clear ptr n := modify fun s => { s with mem := zeroFill s.mem ptr.toNat n }

end UsbPeer

def UsbTransfer.Ok (tr : UsbTransfer) : Prop := tr.event.transferResultOk = .ok ()

def padded (n : Nat) (bytes : List UInt8) : List UInt8 :=
  (List.range n).map fun i => bytes.getD i 0

theorem padded_eq (h : bytes.length = n) : padded n bytes = bytes := by
  subst h
  refine List.ext_getElem (by rw [padded, List.length_map, List.length_range]) fun i h₁ h₂ => ?_
  simp only [padded, List.getElem_map, List.getElem_range, List.getD_eq_getElem _ _ h₂]

theorem load_padded (m : Mem) (p n : Nat) (bytes : List UInt8) :
    (List.range n).map (fun i => storeBytes (zeroFill m p n) p bytes (p + i)) = padded n bytes := by
  refine List.map_congr_left fun i hi => ?_
  have hlt := List.mem_range.1 hi
  rw [storeBytes]
  split
  · rw [Nat.add_sub_cancel_left]
    rfl
  · next hout =>
    rw [zeroFill_zero (by omega) (by omega), List.getD_eq_default _ _ (by omega)]

namespace GenericTrbEntry

theorem transferResultOk_cases (trb : GenericTrbEntry) :
    trb.transferResultOk = .ok () ∨ ∃ msg, trb.transferResultOk = .error (.err msg) := by
  rw [transferResultOk, trbType_eq, completionCode_eq]
  simp only [ok_bind]
  split
  · exact .inr ⟨_, rfl⟩
  · split
    · exact .inr ⟨_, rfl⟩
    · exact .inl rfl

end GenericTrbEntry

section
variable {peer : UsbPeer} {s t : UsbState} {slot : BitVec 8} {setup : SetupStageTrb}
  {buf : DataBuffer} {post : Unit → UsbState → Prop} {fails : Fault → UsbState → Prop}

/-- The transfer of a request: what the device sends is at most `len` bytes. -/
def UsbPeer.answer (peer : UsbPeer) (s : UsbState) (setup : GenericTrbEntry) (len : Nat) :
    UsbTransfer :=
  ⟨setup, (peer.data s.transfers setup).take len, peer.event s.transfers setup⟩

/-- A request that ends well leaves its transfer and the data in its box. -/
structure Served (peer : UsbPeer) (s : UsbState) (setup : GenericTrbEntry) (ptr len : Nat)
    (t : UsbState) : Prop where
  transfers : t.transfers = s.transfers ++ [peer.answer s setup len]
  ok : (peer.answer s setup len).Ok
  mem : t.mem = storeBytes s.mem ptr (peer.answer s setup len).data

/-- A request fails for want of a doorbell or by its transfer. -/
def Refused (peer : UsbPeer) (slot : BitVec 8) (s : UsbState) (setup : GenericTrbEntry) (len : Nat)
    (t : UsbState) : Prop :=
  ¬slot.toNat < peer.doorbells ∧ t.transfers = s.transfers ∨
    t.transfers = s.transfers ++ [peer.answer s setup len] ∧ ¬(peer.answer s setup len).Ok

theorem wait_ends (ptr : Nat)
    (hpost : (peer.transfer s ptr).2.transferResultOk = .ok () → post () (peer.transfer s ptr).1)
    (hfail : ∀ msg, (peer.transfer s ptr).2.transferResultOk = .error (.err msg) →
      fails (.err msg) (peer.transfer s ptr).1)
    (hslot : ¬slot.toNat < peer.doorbells → ∀ msg, fails (.err msg) s) :
    Ends (do
      peer.port.notifyEp slot 1
      MonadExcept.ofExcept (← peer.port.wait ptr).transferResultOk) s post fails := by
  refine Ends.bind (Ends.ofExcept_cases (fun _ _ => Ends.bind ?_) fun e he => ?_)
  · refine Ends.ofExcept_cases (fun _ hok => hpost hok) fun e he => ?_
    rcases GenericTrbEntry.transferResultOk_cases (peer.transfer s ptr).2 with hok | ⟨msg, hmsg⟩
    · cases hok.symm.trans he
    · cases hmsg.symm.trans he
      exact hfail msg hmsg
  · rw [Controller.notifyEp] at he
    split at he
    · cases he
    · next hlt =>
      cases he
      exact hslot hlt _

theorem sends_newIn (hlen : buf.bytes < 2 ^ 17) (setup : GenericTrbEntry) :
    peer.sends s setup (DataStageTrb.newIn buf).toEntry =
      (peer.data s.transfers setup).take buf.bytes := by
  have hkind : (DataStageTrb.newIn buf).toEntry.kind = TrbType.dataStage.value := by
    simp only [DataStageTrb.newIn, DataStageTrb.toEntry, GenericTrbEntry.kind]
    decide
  have hdir : (DataStageTrb.newIn buf).toEntry.dirIn = true := by
    simp only [DataStageTrb.newIn, DataStageTrb.toEntry, GenericTrbEntry.dirIn]
    decide
  have hoption : (DataStageTrb.newIn buf).toEntry.option.toNat % 2 ^ 17 = buf.bytes := by
    simp only [DataStageTrb.newIn, DataStageTrb.toEntry, BitVec.toNat_ofNat]
    omega
  rw [UsbPeer.sends, if_pos ⟨hkind, hdir⟩, hoption]

theorem sends_status (setup : GenericTrbEntry) :
    peer.sends s setup StatusStageTrb.newIn.toEntry = [] := if_neg (by decide)

theorem transfer_eq (peer : UsbPeer) (s : UsbState) (ptr : Nat) (req trb : GenericTrbEntry)
    (hreq : s.pushed.getD (ptr - 1) .default = req) (htrb : s.pushed.getD ptr .default = trb) :
    peer.transfer s ptr = ({ s with
      transfers := s.transfers ++ [⟨req, peer.sends s req trb, peer.event s.transfers req⟩]
      mem := storeBytes s.mem trb.data.toNat (peer.sends s req trb) },
      peer.event s.transfers req) := by
  subst hreq htrb
  rfl

theorem push_ends {post : Nat → UsbState → Prop} {trb : GenericTrbEntry}
    (h : post s.pushed.length (s.push trb)) : Ends (peer.port.push trb) s post fails := h

/-- A request with a data stage: its box takes what the device sends. -/
theorem requestIn_ends (setup : SetupStageTrb) (buf : DataBuffer) (hlen : buf.bytes < 2 ^ 17)
    (hpost : ∀ t, Served peer s setup.toEntry buf.ptr.toNat buf.bytes t → post () t)
    (hfail : ∀ msg t, Refused peer slot s setup.toEntry buf.bytes t → fails (.err msg) t) :
    Ends (Controller.requestIn peer.port.toPort slot setup buf) s post fails := by
  refine Ends.bind (Ends.bind (Ends.bind ?_))
  have htransfer := transfer_eq peer (((s.push setup.toEntry).push
    (DataStageTrb.newIn buf).toEntry).push StatusStageTrb.newOut.toEntry)
    (s.push setup.toEntry).pushed.length setup.toEntry (DataStageTrb.newIn buf).toEntry
    (by simp [UsbState.push]) (by simp [UsbState.push])
  rw [sends_newIn hlen] at htransfer
  refine wait_ends (s.push setup.toEntry).pushed.length ?_ ?_ fun hlt msg =>
    hfail msg _ (.inl ⟨hlt, rfl⟩)
  · rw [htransfer]
    exact fun hok => hpost _ ⟨rfl, hok, rfl⟩
  · rw [htransfer]
    refine fun msg hmsg => hfail msg _ (.inr ⟨rfl, fun hok => ?_⟩)
    cases hmsg.symm.trans hok

theorem requestIn_unrung (hslot : ¬slot.toNat < peer.doorbells)
    (hfail : ∀ t, t.transfers = s.transfers → fails (.err "Invalid slot") t) :
    Ends (Controller.requestIn peer.port.toPort slot setup buf) s post fails := by
  refine Ends.bind (push_ends (Ends.bind (push_ends (Ends.bind (push_ends (Ends.bind ?_))))))
  refine Ends.ofExcept_cases (fun _ hok => ?_) ?_
  · rw [Controller.notifyEp, if_neg hslot] at hok
    cases hok
  · intro e he
    rw [Controller.notifyEp, if_neg hslot] at he
    cases he
    exact hfail _ rfl

theorem requestSet_ends (setup : SetupStageTrb)
    (hpost : ∀ t, Served peer s setup.toEntry 0 0 t → post () t)
    (hfail : ∀ msg t, Refused peer slot s setup.toEntry 0 t → fails (.err msg) t) :
    Ends (Controller.requestSet peer.port.toPort slot setup) s post fails := by
  refine Ends.bind (Ends.bind ?_)
  have htransfer := transfer_eq peer
    ((s.push setup.toEntry).push StatusStageTrb.newIn.toEntry) (s.push setup.toEntry).pushed.length
    setup.toEntry StatusStageTrb.newIn.toEntry (by simp [UsbState.push]) (by simp [UsbState.push])
  rw [sends_status] at htransfer
  refine wait_ends (s.push setup.toEntry).pushed.length ?_ ?_ fun hlt msg =>
    hfail msg _ (.inl ⟨hlt, rfl⟩)
  · rw [htransfer]
    exact fun hok => hpost _ ⟨rfl, hok, rfl⟩
  · rw [htransfer]
    refine fun msg hmsg => hfail msg _ (.inr ⟨rfl, fun hok => ?_⟩)
    cases hmsg.symm.trans hok

theorem alloc_ends {post : BitVec 64 → UsbState → Prop} (h : post (peer.place s.boxes)
      { s with mem := zeroFill s.mem (peer.place s.boxes).toNat n, boxes := s.boxes + 1 }) :
    Ends (peer.port.alloc n) s post fails := h

theorem fetch_ends {post : α → UsbState → Prop} {f : List UInt8 → UsbM α}
    (setup : SetupStageTrb) (hn : n < 2 ^ 17) (hlen : len * size = n)
    (hpost : ∀ t, t.transfers = s.transfers ++ [peer.answer s setup.toEntry n] →
      (peer.answer s setup.toEntry n).Ok →
      Ends (f (padded n (peer.answer s setup.toEntry n).data)) t post fails)
    (hfail : ∀ msg t, Refused peer slot s setup.toEntry n t → fails (.err msg) t) :
    Ends (do
      let ptr ← peer.port.alloc n
      Controller.requestIn peer.port.toPort slot setup ⟨ptr, len, size⟩
      f (← peer.port.load ptr n)) s post fails := by
  have hbytes : ∀ ptr, DataBuffer.bytes ⟨ptr, len, size⟩ = n := fun _ => hlen
  refine Ends.bind (alloc_ends (Ends.bind ?_))
  refine requestIn_ends _ _ (by rwa [hbytes]) (fun t h => ?_) fun msg t h => ?_
  · rw [hbytes] at h
    refine Ends.bind ?_
    have hload : (List.range n).map (fun i => t.mem ((peer.place s.boxes).toNat + i)) =
        padded n (peer.answer s setup.toEntry n).data := by
      rw [h.mem]
      exact load_padded s.mem _ n _
    have hrest := hpost t h.transfers h.ok
    rw [← hload] at hrest
    exact hrest
  · rw [hbytes] at h
    exact hfail msg t h

theorem box_ends {post : List UInt8 → UsbState → Prop} {ptr : BitVec 64}
    (h : post ((List.range n).map fun i => s.mem (ptr.toNat + i))
      { s with mem := zeroFill s.mem ptr.toNat n }) :
    Ends (do
      let bytes ← peer.port.load ptr n
      peer.port.clear ptr n
      return bytes) s post fails := h

theorem attempt_ends {x : UsbM α} {post : Option α → UsbState → Prop}
    (h : Ends x s (fun a t => post (some a) t) fun e t => ∃ msg, e = .err msg ∧ post none t) :
    Ends (attempt x) s post fails := by
  refine Ends.tryCatch (Ends.map (h.mono (fun _ _ ht => ht) fun e t ht => ?_))
  obtain ⟨msg, rfl, hnone⟩ := ht
  exact Ends.pure hnone

end

end Wasabi
