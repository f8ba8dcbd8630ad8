import Wasabi.HeapInvariant
import Mathlib.Logic.Relation

namespace Wasabi
set_option autoImplicit true

open Header

/-- An object that was handed out for a layout and has not been freed. -/
structure Block where
  ptr : Nat
  layout : Layout

structure Block.HeldBy (b : Block) (c : Nat × Header) : Prop where
  ptr_eq : b.ptr = c.1 + headerSize
  allocated : c.2.isAllocated = true
  size_eq : c.2.size = blockSize b.layout.size + headerSize
  aligned : b.layout.align ∣ b.ptr
  nonempty : 0 < b.layout.size

theorem Block.HeldBy.bytes_le {b : Block} (h : b.HeldBy c) :
    b.layout.size + headerSize ≤ c.2.size := by
  have hs := le_blockSize b.layout.size
  rw [h.size_eq]
  omega

/-- The invariant of a heap in use: a formatted header list in which every live object has an
allocated header of its own. -/
structure HeapInv (regions : List (Nat × Nat)) (heap : Heap) (live : List Block)
    (cs : List (Nat × Header)) : Prop extends Formatted regions heap cs where
  held : ∀ b ∈ live, ∃ c ∈ cs, b.HeldBy c
  distinct : live.Pairwise fun a b => a.ptr ≠ b.ptr

namespace HeapInv

/-- No header touches the bytes of a live object, not even its own. -/
theorem header_apart (h : HeapInv regions heap live cs) (hb : b ∈ live) (hc : c ∈ cs) :
    Apart b.ptr b.layout.size c.1 headerSize := by
  obtain ⟨d, hd, hheld⟩ := h.held b hb
  have hbytes := hheld.bytes_le
  have hptr := hheld.ptr_eq
  by_cases hcd : c = d
  · subst hcd
    exact .inr (by omega)
  · have hs := (h.shaped c hc).size_le
    exact (h.apart_of_ne hd hc (Ne.symm hcd)).mono (by omega) (by omega) (Nat.le_refl _)
      (by unfold headerSize; omega)

theorem blocks_apart (h : HeapInv regions heap live cs) :
    live.Pairwise fun a b => Apart a.ptr a.layout.size b.ptr b.layout.size := by
  apply h.distinct.imp_of_mem
  intro a b ha hb hne
  obtain ⟨c, hc, hac⟩ := h.held a ha
  obtain ⟨d, hd, hbd⟩ := h.held b hb
  have hcd : c ≠ d := by
    intro he
    subst he
    exact hne (hac.ptr_eq.trans hbd.ptr_eq.symm)
  have hca := hac.bytes_le
  have hdb := hbd.bytes_le
  have hpa := hac.ptr_eq
  have hpb := hbd.ptr_eq
  exact (h.apart_of_ne hc hd hcd).mono (by omega) (by omega) (by omega) (by omega)

theorem bounds (h : HeapInv regions heap live cs) (hb : b ∈ live) :
    ∃ r ∈ regions, r.1 ≤ b.ptr ∧ b.ptr + b.layout.size ≤ r.2 := by
  obtain ⟨c, hc, hheld⟩ := h.held b hb
  obtain ⟨r, hr, hlo, hhi⟩ := h.tiled.mem_bounds hc
  have hbytes := hheld.bytes_le
  have hptr := hheld.ptr_eq
  exact ⟨r, hr, by omega, by omega⟩

theorem perm (h : HeapInv regions heap live cs) (hp : live.Perm live') :
    HeapInv regions heap live' cs :=
  ⟨h.toFormatted, fun b hb => h.held b (hp.mem_iff.2 hb),
    (hp.pairwise_iff fun hne => Ne.symm hne).1 h.distinct⟩

theorem sublist (h : HeapInv regions heap live cs) (hs : List.Sublist live' live) :
    HeapInv regions heap live' cs :=
  ⟨h.toFormatted, fun b hb => h.held b (hs.subset hb), h.distinct.sublist hs⟩

theorem aligned (h : HeapInv regions heap live cs) (hb : b ∈ live) :
    b.layout.align ∣ b.ptr := by
  obtain ⟨c, _, hheld⟩ := h.held b hb
  exact hheld.aligned

theorem frame (h : HeapInv regions heap live cs)
    (hm : ∀ c ∈ cs, SameOn heap.mem m c.1 headerSize) :
    HeapInv regions { heap with mem := m } live cs :=
  ⟨h.toFormatted.frame hm, h.held, h.distinct⟩

theorem write (h : HeapInv regions heap live cs) (hb : b ∈ live)
    (hm : ∀ a, (a < b.ptr ∨ b.ptr + b.layout.size ≤ a) → m a = heap.mem a) :
    HeapInv regions { heap with mem := m } live cs := by
  apply h.frame
  intro c hc a hlo hhi
  apply hm
  have ha := h.header_apart hb hc
  unfold Apart at ha
  omega

end HeapInv

theorem allocLoop_zero (hlinks : Links s none cs) (hstored : ∀ c ∈ cs, load m c.1 = c.2)
    (hfuel : cs.length ≤ fuel) : allocLoop fuel m s 0 align = .ok (0, m) := by
  induction cs generalizing s fuel with
  | nil =>
    cases hlinks
    cases fuel <;> rfl
  | cons c cs ih =>
    obtain ⟨rfl, hlinks⟩ := hlinks
    obtain ⟨fuel, rfl⟩ : ∃ n, fuel = n + 1 := ⟨fuel - 1, by simp at hfuel; omega⟩
    rw [allocLoop, provide_zero, ok_bind]
    simp only [hstored c List.mem_cons_self]
    exact ih hlinks (fun d hd => hstored d (List.mem_cons_of_mem _ hd)) (by simp at hfuel; omega)

theorem Formatted.alloc_cases (h : Formatted regions heap cs) (l : Layout) :
    (heap.allocWithOptions l = .ok (0, heap) ∧ (l.size = 0 ∨ ∀ c ∈ cs, ¬c.2.Able l)) ∨
    ∃ pre c post, cs = pre ++ c :: post ∧ 0 < l.size ∧ (∀ d ∈ pre, ¬d.2.Able l) ∧ c.2.Able l ∧
      heap.allocWithOptions l = .ok (carveAddr l c.1 c.2,
        { heap with mem := storeAll heap.mem (carved l c.1 c.2) }) := by
  rcases Nat.eq_zero_or_pos l.size with hz | hl
  · left
    rw [Heap.allocWithOptions, hz, allocLoop_zero h.list.links h.list.stored h.length_le]
    exact ⟨rfl, .inl rfl⟩
  · have hloop := allocLoop_eq l hl h.list.links h.list.stored (fun c hc => (h.bounds hc).2)
      h.length_le
    cases hfind : cs.find? fun c => c.2.Able l with
    | none =>
      left
      rw [hfind] at hloop
      rw [Heap.allocWithOptions, hloop]
      exact ⟨rfl, .inr fun c hc => by simpa using List.find?_eq_none.1 hfind c hc⟩
    | some c =>
      right
      rw [hfind] at hloop
      obtain ⟨hc, pre, post, he, hpre⟩ := List.find?_eq_some_iff_append.1 hfind
      refine ⟨pre, c, post, he, hl, fun d hd => by simpa using hpre d hd, by simpa using hc, ?_⟩
      rw [Heap.allocWithOptions, hloop]
      rfl

namespace HeapInv

theorem carve (h : HeapInv regions heap live (pre ++ c :: post)) (hl : 0 < l.size)
    (ha : c.2.Able l) :
    HeapInv regions { heap with mem := storeAll heap.mem (carved l c.1 c.2) }
      (⟨carveAddr l c.1 c.2, l⟩ :: live) (pre ++ (carved l c.1 c.2 ++ post)) := by
  have hc : c ∈ pre ++ c :: post := by simp
  have hform := h.toFormatted.replace (carved_tiles l c.1 ha) (carved_links l c.1 c.2)
    (fun d hd => carved_shaped l (h.shaped c hc) ha hd)
    (fun d hd => carved_fits l ha (h.fits hc) (h.toFormatted.bounds hc).2 hd)
  have hkeep : ∀ d ∈ pre ++ c :: post, d ≠ c → d ∈ pre ++ (carved l c.1 c.2 ++ post) := by
    intro d hd hne
    simp only [List.mem_append, List.mem_cons] at hd ⊢
    tauto
  have hfree : ∀ b ∈ live, ∀ d ∈ pre ++ c :: post, b.HeldBy d → d ≠ c := by
    intro b _ d _ hheld he
    subst he
    exact Bool.noConfusion (hheld.allocated.symm.trans ha.1)
  refine ⟨hform, fun b hb => ?_, List.pairwise_cons.2 ⟨fun b hb he => ?_, h.distinct⟩⟩
  · have hbounds := carveAddr_bounds l c.1 ha
    rcases List.mem_cons.1 hb with rfl | hb
    · refine ⟨(carveAddr l c.1 c.2 - headerSize, ⟨if carveAddr l c.1 c.2 + blockSize l.size =
        c.1 + c.2.size then c.2.nextHeader else some (carveAddr l c.1 c.2 + blockSize l.size),
        blockSize l.size + headerSize, true⟩), ?_, ?_⟩
      · simp only [carved, List.mem_append]
        split <;> simp
      · exact ⟨by simp only [headerSize]; omega, rfl, rfl, (carveAddr_dvd l c.1 c.2).2, hl⟩
    · obtain ⟨d, hd, hheld⟩ := h.held b hb
      exact ⟨d, hkeep d hd (hfree b hb d hd hheld), hheld⟩
  · obtain ⟨d, hd, hheld⟩ := h.held b hb
    have hapart := h.apart_of_ne hd hc (hfree b hb d hd hheld)
    have hbounds := carveAddr_bounds l c.1 ha
    have hblock := headerSize_le_blockSize l.size
    have hptr := hheld.ptr_eq
    have hbytes := hheld.bytes_le
    dsimp only at he
    unfold Apart at hapart
    omega

theorem carve_same_on (h : HeapInv regions heap live (pre ++ c :: post)) (ha : c.2.Able l)
    (hb : b ∈ live) :
    SameOn heap.mem (storeAll heap.mem (carved l c.1 c.2)) b.ptr b.layout.size := by
  have hc : c ∈ pre ++ c :: post := by simp
  obtain ⟨d, hd, hheld⟩ := h.held b hb
  have hne : c ≠ d := by
    intro he
    subst he
    exact Bool.noConfusion (hheld.allocated.symm.trans ha.1)
  apply storeAll_same_on
  intro e he
  have hbe := (carved_tiles l c.1 ha).mem_bounds he
  have hse := (carved_shaped l (h.shaped c hc) ha he).size_le
  have hptr := hheld.ptr_eq
  have hbytes := hheld.bytes_le
  exact (h.apart_of_ne hc hd hne).mono hbe.1 (by unfold headerSize; omega) (by omega) (by omega)

theorem free (h : HeapInv regions heap live cs) (hb : b ∈ live) :
    ∃ pre c post, cs = pre ++ c :: post ∧ b.HeldBy c ∧
      heap.dealloc b.ptr =
        .ok { heap with mem := store heap.mem c.1 { c.2 with isAllocated := false } } ∧
      HeapInv regions { heap with mem := store heap.mem c.1 { c.2 with isAllocated := false } }
        (live.filter (·.ptr ≠ b.ptr))
        (pre ++ (c.1, { c.2 with isAllocated := false }) :: post) := by
  obtain ⟨c, hc, hheld⟩ := h.held b hb
  obtain ⟨pre, post, rfl⟩ := List.append_of_mem hc
  have hregion : b.ptr - headerSize = c.1 := by
    rw [hheld.ptr_eq]
    omega
  refine ⟨pre, c, post, rfl, hheld, ?_, ?_, fun a hmem => ?_, ?_⟩
  · rw [Heap.dealloc, checkedSub_ok (by rw [hheld.ptr_eq]; omega), hregion, ok_bind,
      h.list.stored c hc]
    rfl
  · have hs := h.shaped c hc
    have hf := h.fits hc
    have ht : Tiles Prod.fst (fun c => c.2.size) c.1 (c.1 + c.2.size)
        [(c.1, { c.2 with isAllocated := false })] := ⟨rfl, rfl⟩
    refine h.toFormatted.replace ht ⟨rfl, rfl⟩ (fun d hd => ?_) (fun d hd => ?_)
    · rw [List.mem_singleton.1 hd]
      exact ⟨hs.addr_mod, hs.size_mod, hs.size_le⟩
    · rw [List.mem_singleton.1 hd]
      exact ⟨hf.size_lt, hf.next_lt⟩
  · obtain ⟨hmem, hne⟩ := List.mem_filter.1 hmem
    obtain ⟨d, hd, hheld'⟩ := h.held a hmem
    have hdc : d ≠ c := by
      intro he
      subst he
      exact of_decide_eq_true hne (hheld'.ptr_eq.trans hheld.ptr_eq.symm)
    refine ⟨d, ?_, hheld'⟩
    simp only [List.mem_append, List.mem_cons] at hd ⊢
    tauto
  · exact h.distinct.filter _

theorem free_same_on (h : HeapInv regions heap live cs) (hc : c ∈ cs) (ha : a ∈ live) :
    SameOn heap.mem (store heap.mem c.1 hdr) a.ptr a.layout.size :=
  store_same_on (h.header_apart ha hc).symm

end HeapInv

end Wasabi
