import Wasabi.CommandRing
import Wasabi.EventRing
import Wasabi.Exceptions
import Wasabi.Scratchpad

namespace Wasabi
set_option autoImplicit true

/-- `IoBox::new` of a structure that fills a page, without the `disable_cache` at its end: that one
changes page attributes and no byte of the heap's blocks. -/
def ioBoxNew : BoxM Block := boxPin layoutPage4k (List.replicate 4096 0)

def storeTrb (m : Mem) (p : Nat) (trb : GenericTrbEntry) : Mem :=
  writeLe (writeLe (writeLe m p 8 trb.data.toNat) (p + 8) 4 trb.option.toNat) (p + 12) 4
    trb.control.toNat

def loadTrb (m : Mem) (p : Nat) : GenericTrbEntry where
  data := BitVec.ofNat 64 (readLe m p 8)
  option := BitVec.ofNat 32 (readLe m (p + 8) 4)
  control := BitVec.ofNat 32 (readLe m (p + 12) 4)

def CommandRing.alloc : BoxM Block := do
  let ring ← ioBoxNew
  let linkTrb ← MonadExcept.ofExcept (GenericTrbEntry.trbLink ring.ptr)
  modifyMem fun m => storeTrb m (ring.ptr + 16 * (TrbRing.numTrb - 1)) linkTrb
  return ring

def EventRing.alloc : BoxM (Block × Block) := do
  let ring ← ioBoxNew
  let erst ← ioBoxNew
  modifyMem fun m => writeLe (writeLe m erst.ptr 8 ring.ptr) (erst.ptr + 8) 2 TrbRing.numTrb
  return (ring, erst)

def layoutDcbaa : Layout := ⟨2048, 64, ⟨6, rfl⟩, by decide⟩

def DeviceContextBaseAddressArray.alloc (scratchpadTable : Nat) : BoxM Block :=
  boxPin layoutDcbaa (leBytes 8 scratchpadTable ++ List.replicate 2040 0)

theorem readLe_zeros (h : a + k ≤ n) : readLe (listMem (List.replicate n 0)) a k = 0 := by
  refine readLe_of_zero fun b _ hb => ?_
  rw [listMem, List.getD_replicate _ (by omega)]

theorem loadTrb_congr (h : SameOn m m' p 16) : loadTrb m' p = loadTrb m p := by
  rw [loadTrb, loadTrb, readLe_congr (h.mono (Nat.le_refl _) (by omega)),
    readLe_congr (h.mono (by omega) (by omega)), readLe_congr (h.mono (by omega) (by omega))]

theorem storeTrb_same_on (trb : GenericTrbEntry) (h : a + n ≤ p ∨ p + 16 ≤ a) :
    SameOn m (storeTrb m p trb) a n := by
  rw [storeTrb]
  refine (writeLe_same_on (by omega)).trans ((writeLe_same_on (by omega)).trans
    (writeLe_same_on (by omega)))

theorem loadTrb_storeTrb (m : Mem) (p : Nat) (trb : GenericTrbEntry) :
    loadTrb (storeTrb m p trb) p = trb := by
  have hdata : trb.data.toNat < 256 ^ 8 := trb.data.isLt
  have hoption : trb.option.toNat < 256 ^ 4 := trb.option.isLt
  have hcontrol : trb.control.toNat < 256 ^ 4 := trb.control.isLt
  have hreadData : readLe (storeTrb m p trb) p 8 = trb.data.toNat :=
    (readLe_writeLe_ne (by omega)).trans
      ((readLe_writeLe_ne (by omega)).trans (readLe_writeLe_of_lt hdata))
  have hreadOption : readLe (storeTrb m p trb) (p + 8) 4 = trb.option.toNat :=
    (readLe_writeLe_ne (by omega)).trans (readLe_writeLe_of_lt hoption)
  have hreadControl : readLe (storeTrb m p trb) (p + 12) 4 = trb.control.toNat :=
    readLe_writeLe_of_lt hcontrol
  rw [loadTrb, hreadData, hreadOption, hreadControl]
  simp

section
variable {regions : List (Nat × Nat)} {os : List Block} {room last : Nat} {s : HeapRun}
  {fails : Fault → HeapRun → Prop}

def Zeroed (b : Block) (m : Mem) : Prop := ∀ a n, a + n ≤ 4096 → readLe m (b.ptr + a) n = 0

theorem ioBoxNew_ends {post : Block → HeapRun → Prop} (h : HeapOwns regions os room last s)
    (hpost : ∀ b last' s', b.layout = layoutPage4k →
      HeapOwns regions (b :: os) (room - layoutPage4k.needed) last' s' → SameBlocks os s s' →
      Zeroed b s'.heap.mem → post b s')
    (hfail : ∀ s, room < layoutPage4k.needed → fails .outOfMemory s) :
    Ends ioBoxNew s post fails := by
  have hlen : (List.replicate 4096 (0 : UInt8)).length = 4096 := List.length_replicate
  refine boxPin_ends h layoutPage4k_pos hlen.le (fun b last' s' hl howns hsame hstores => ?_) hfail
  refine hpost b last' s' hl howns hsame fun a n han => ?_
  rw [hstores.read a n (by rwa [hlen]), readLe_zeros han]

def TrbRing.StoredIn (ring : TrbRing) (m : Mem) : Prop :=
  ∀ i : Fin 16, loadTrb m (ring.addrOf i) = ring.trb i

theorem TrbRing.StoredIn.congr {ring : TrbRing} (h : ring.StoredIn m)
    (hm : SameOn m m' ring.base 4096) : ring.StoredIn m' := by
  intro i
  have hi := i.isLt
  rw [← h i]
  exact loadTrb_congr (hm.mono (by rw [TrbRing.addrOf]; omega) (by rw [TrbRing.addrOf]; omega))

theorem Zeroed.loadTrb (h : Zeroed b m) (hi : i < 16) :
    loadTrb m (b.ptr + 16 * i) = .default := by
  rw [Wasabi.loadTrb, Nat.add_assoc, Nat.add_assoc, h _ _ (by omega), h _ _ (by omega),
    h _ _ (by omega)]
  rfl

theorem page_mod {b : Block} (hl : b.layout = layoutPage4k) (h : HeapOwns regions os room last s)
    (hb : b ∈ os) : b.ptr % 4096 = 0 := by
  have hdvd := h.aligned hb
  rw [hl] at hdvd
  exact Nat.mod_eq_zero_of_dvd hdvd

theorem CommandRing.fresh_trb {i : Fin 16} (h : base % 4096 = 0) (hi : i.val ≠ 15) :
    (fresh base h).ring.trb i = .default :=
  dif_neg fun he => hi (congrArg Fin.val he)

theorem CommandRing.alloc_ends {post : Block → HeapRun → Prop}
    (h : HeapOwns regions os room last s)
    (hpost : ∀ b last' s' (hal : b.ptr % 4096 = 0), b.layout = layoutPage4k →
      HeapOwns regions (b :: os) (room - layoutPage4k.needed) last' s' → SameBlocks os s s' →
      (fresh b.ptr hal).ring.StoredIn s'.heap.mem → post b s')
    (hfail : ∀ s, room < layoutPage4k.needed → fails .outOfMemory s) :
    Ends alloc s post fails := by
  refine Ends.bind (ioBoxNew_ends h (fun b last' s' hl howns hsame hzero => ?_) hfail)
  refine Ends.bind (Ends.ofExcept (GenericTrbEntry.trbLink_eq b.ptr) ?_)
  have hsize : b.layout.size = 4096 := by
    rw [hl]
    rfl
  have hinside : ∀ a, (a < b.ptr ∨ b.ptr + b.layout.size ≤ a) →
      storeTrb s'.heap.mem (b.ptr + 16 * (TrbRing.numTrb - 1))
        ⟨BitVec.ofNat 64 b.ptr, 0, 0x1802⟩ a = s'.heap.mem a := by
    intro a ha
    have hnum : 16 * (TrbRing.numTrb - 1) = 240 := rfl
    have hsame := storeTrb_same_on (m := s'.heap.mem) (n := 1)
      (p := b.ptr + 16 * (TrbRing.numTrb - 1)) ⟨BitVec.ofNat 64 b.ptr, 0, 0x1802⟩
      (show a + 1 ≤ _ ∨ _ by omega)
    exact hsame a (Nat.le_refl _) (by omega)
  obtain ⟨howns', hsame'⟩ := howns.write [] hinside
  refine Ends.bind (Ends.modify (Ends.pure ?_))
  refine hpost b last' _ (page_mod hl howns List.mem_cons_self) hl howns' (hsame.trans hsame') ?_
  intro i
  have hi := i.isLt
  by_cases hlast : i.val = 15
  · obtain rfl : i = ⟨15, by decide⟩ := Fin.ext hlast
    exact loadTrb_storeTrb _ _ _
  · have hentry := fresh_trb (page_mod hl howns List.mem_cons_self) hlast
    have hnum : 16 * (TrbRing.numTrb - 1) = 240 := rfl
    have haddr : (fresh b.ptr (page_mod hl howns List.mem_cons_self)).ring.addrOf i =
      b.ptr + 16 * i := rfl
    rw [hentry, ← hzero.loadTrb hi]
    exact loadTrb_congr (storeTrb_same_on _ (.inl (by omega)))

theorem EventRing.alloc_ends {post : Block × Block → HeapRun → Prop}
    (h : HeapOwns regions os room last s)
    (hpost : ∀ ring erst last' s' (hal : ring.ptr % 4096 = 0), ring.layout = layoutPage4k →
      erst.layout = layoutPage4k →
      HeapOwns regions (erst :: ring :: os) (room - 2 * layoutPage4k.needed) last' s' →
      SameBlocks os s s' → (new ring.ptr hal).ring.StoredIn s'.heap.mem →
      readLe s'.heap.mem erst.ptr 8 = ring.ptr → readLe s'.heap.mem (erst.ptr + 8) 2 = 16 →
      post (ring, erst) s')
    (hfail : ∀ s, room < 2 * layoutPage4k.needed → fails .outOfMemory s) :
    Ends alloc s post fails := by
  refine Ends.bind (ioBoxNew_ends h (fun ring last₁ s₁ hl₁ h₁ hsame₁ hzero => ?_)
    fun s hlt => hfail s (by omega))
  refine Ends.bind (ioBoxNew_ends h₁ (fun erst last₂ s₂ hl₂ h₂ hsame₂ _ => ?_)
    fun s hlt => hfail s (by omega))
  have hsize : erst.layout.size = 4096 := by
    rw [hl₂]
    rfl
  have hinside : ∀ a, (a < erst.ptr ∨ erst.ptr + erst.layout.size ≤ a) →
      writeLe (writeLe s₂.heap.mem erst.ptr 8 ring.ptr) (erst.ptr + 8) 2 TrbRing.numTrb a =
        s₂.heap.mem a := by
    intro a ha
    simp only [writeLe]
    rw [if_neg (by omega), if_neg (by omega)]
  obtain ⟨h₃, hsame₃⟩ := h₂.write [] hinside
  have hlt := (h₁.ptr_bounds (b := ring) List.mem_cons_self).2
  refine Ends.bind (Ends.modify (Ends.pure ?_))
  refine hpost ring erst last₂ _ (page_mod hl₁ h₁ List.mem_cons_self) hl₁ hl₂
    (h₃.less (by omega)) ?_ ?_ ?_ ?_
  · exact (hsame₁.trans (hsame₂.mono (List.subset_cons_self _ _))).trans
      (hsame₃.mono (List.subset_cons_self _ _))
  · have hring : (new ring.ptr (page_mod hl₁ h₁ List.mem_cons_self)).ring.StoredIn s₁.heap.mem :=
      fun i => hzero.loadTrb i.isLt
    have hkept := (hsame₂ ring List.mem_cons_self).trans (hsame₃ ring List.mem_cons_self)
    rw [hl₁] at hkept
    exact hring.congr hkept
  · exact (readLe_writeLe_ne (by omega)).trans (readLe_writeLe_of_lt hlt)
  · exact readLe_writeLe_of_lt (by decide)

theorem DeviceContextBaseAddressArray.alloc_ends {post : Block → HeapRun → Prop} {table : Nat}
    (h : HeapOwns regions os room last s) (htable : table < 2 ^ 64)
    (hpost : ∀ b last' s', b.layout.size = 2048 → 64 ∣ b.ptr →
      HeapOwns regions (b :: os) (room - layoutDcbaa.needed) last' s' → SameBlocks os s s' →
      readLe s'.heap.mem b.ptr 8 = table →
      (∀ i, 1 ≤ i → i < 256 → readLe s'.heap.mem (b.ptr + 8 * i) 8 = 0) → post b s')
    (hfail : ∀ s, room < layoutDcbaa.needed → fails .outOfMemory s) :
    Ends (alloc table) s post fails := by
  have hlen : (leBytes 8 table ++ List.replicate 2040 0).length = 2048 := by
    rw [List.length_append, length_leBytes, List.length_replicate]
  refine boxPin_ends h (by decide) hlen.le (fun b last' s' hl howns hsame hstores => ?_) hfail
  have hdvd := howns.aligned (b := b) List.mem_cons_self
  rw [hl] at hdvd
  refine hpost b last' s' (by rw [hl]; rfl) hdvd howns hsame ?_ fun i hpos hi => ?_
  · exact (hstores.read 0 8 (by omega)).trans
      (readLe_field [] (List.replicate 2040 0) rfl rfl htable)
  · rw [hstores.read (8 * i) 8 (by omega)]
    have hmiddle := readLe_middle (leBytes 8 table) (List.replicate 2040 0) [] (a := 8 * i - 8)
      (n := 8) (by rw [List.length_replicate]; omega)
    rw [List.append_nil, length_leBytes, Nat.add_sub_cancel' (by omega)] at hmiddle
    rw [hmiddle, readLe_zeros (by omega)]

theorem ScratchpadBuffers.alloc_filled {post : ScratchpadBuffers → HeapRun → Prop}
    (capRegs : CapabilityRegisters) (pagesize : BitVec 32) (h : HeapOwns regions [] room last s)
    (hpost : ∀ bufs pageSize fits last' s', OperationalRegisters.pageSize pagesize = .ok pageSize →
      bufs.bufs.items.length = max capRegs.numScratchpadBufs 1 →
      Filling regions pageSize (max capRegs.numScratchpadBufs 1) fits bufs.table bufs.bufs
        (room - allocRoom (max capRegs.numScratchpadBufs 1) pageSize) last' s' →
      post bufs s')
    (hillegal : ∀ e s, OperationalRegisters.pageSize pagesize = .error e → fails e s)
    (hfail : ∀ pageSize s, OperationalRegisters.pageSize pagesize = .ok pageSize →
      room < allocRoom (max capRegs.numScratchpadBufs 1) pageSize → fails .outOfMemory s) :
    Ends (alloc capRegs pagesize) s post fails := by
  rcases OperationalRegisters.pageSize_cases pagesize with ⟨msg, herr⟩ | ⟨n, hn, hbit⟩
  · refine Ends.bind (Ends.ofExcept_cases (fun a ha => ?_) fun e he => hillegal e _ he)
    rw [herr] at ha
    cases ha
  · obtain ⟨cs, hinv, _⟩ := h.inv
    have hok := OperationalRegisters.pageSize_ok hn hbit
    exact alloc_ends h hinv.list hn hbit
      (fun bufs last' s' hlen hfilled _ => hpost bufs _ _ last' s' hok hlen hfilled)
      fun s hlt => hfail _ s hok hlt

end

end Wasabi
