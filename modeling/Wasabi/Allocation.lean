import Wasabi.HeapRuns

namespace Wasabi
set_option autoImplicit true

open Header

namespace Header

/-- The header at `self` after `provide` has put an object at `ptr`: a shrunk header, the header of
the object and, where the object ends early, a header for the padding. -/
structure Split (l : Layout) (m : Mem) (self ptr : Nat) (m' : Mem) : Prop where
  aligned : l.align ∣ ptr ∧ 32 ∣ ptr
  above : self + 64 ≤ ptr - headerSize
  within : ptr + blockSize l.size ≤ self + (load m self).size
  allocated : (load m' (ptr - headerSize)).isAllocated = true ∧
    (load m' (ptr - headerSize)).size = blockSize l.size + headerSize
  shrunk : (load m' self).nextHeader = some (ptr - headerSize) ∧
    (load m' self).isAllocated = (load m self).isAllocated
  unpadded : ptr + blockSize l.size = self + (load m self).size →
    (load m' (ptr - headerSize)).nextHeader = (load m self).nextHeader ∧
      (load m' self).size + (load m' (ptr - headerSize)).size = (load m self).size
  padded : ptr + blockSize l.size < self + (load m self).size →
    ∃ padding, load m' (ptr + blockSize l.size) = padding ∧
      (load m' (ptr - headerSize)).nextHeader = some (ptr + blockSize l.size) ∧
      padding.nextHeader = (load m self).nextHeader ∧ padding.isAllocated = false ∧
      headerSize ≤ padding.size ∧
      (load m' self).size + (load m' (ptr - headerSize)).size + padding.size = (load m self).size
  elsewhere : ∀ a, a < self ∨ self + (load m self).size ≤ a → m' a = m a

section
variable {l : Layout} {m : Mem} {self : Nat} {h : Header}

theorem carved_stored (hs : Shaped (self, h)) (ha : h.Able l) (hf : h.Fits)
    (hend : self + h.size < 2 ^ 64) (hc : c ∈ carved l self h) :
    load (storeAll m (carved l self h)) c.1 = c.2 :=
  (carved_tiles l self ha).load_storeAll (fun _ hd => carved_shaped l hs ha hd)
    (fun _ hd => carved_fits l ha hf hend hd) hc

theorem carved_elsewhere (hs : Shaped (self, h)) (ha : h.Able l)
    (hout : a < self ∨ self + h.size ≤ a) : storeAll m (carved l self h) a = m a := by
  refine storeAll_same_on (n := 1) (fun c hc => ?_) a (Nat.le_refl _) (Nat.lt_succ_self _)
  have hin := (carved_tiles l self ha).mem_bounds hc
  have hle := (carved_shaped l hs ha hc).size_le
  unfold Apart headerSize
  omega

theorem carved_object (l : Layout) (self : Nat) (h : Header) :
    ∃ next, (carveAddr l self h - headerSize, ⟨next, blockSize l.size + headerSize, true⟩) ∈
        carved l self h ∧
      (carveAddr l self h + blockSize l.size = self + h.size → next = h.nextHeader) ∧
      (carveAddr l self h + blockSize l.size ≠ self + h.size →
        next = some (carveAddr l self h + blockSize l.size) ∧
          (carveAddr l self h + blockSize l.size,
            ⟨h.nextHeader, self + h.size - (carveAddr l self h + blockSize l.size), false⟩) ∈
            carved l self h) := by
  by_cases hpad : carveAddr l self h + blockSize l.size = self + h.size
  · refine ⟨h.nextHeader, ?_, fun _ => rfl, fun hne => absurd hpad hne⟩
    simp only [carved, if_pos hpad, List.mem_cons, true_or, or_true]
  · refine ⟨some (carveAddr l self h + blockSize l.size), ?_, fun he => absurd he hpad,
      fun _ => ⟨rfl, ?_⟩⟩
    · simp only [carved, if_neg hpad, List.mem_cons, true_or, or_true]
    · simp only [carved, if_neg hpad, List.mem_cons, true_or, or_true]

theorem carved_split (hm : load m self = h) (hs : Shaped (self, h)) (ha : h.Able l)
    (hend : self + h.size < 2 ^ 64) :
    Split l m self (carveAddr l self h) (storeAll m (carved l self h)) := by
  have hb := carveAddr_bounds l self ha
  have hmod := carveAddr_mod l self h
  have hself : self % 32 = 0 := hs.addr_mod
  have hsize : h.size % 32 = 0 := hs.size_mod
  have hblock := blockSize_mod l.size
  have hf : h.Fits := hm ▸ load_fits m self
  have hstored : ∀ c ∈ carved l self h, load (storeAll m (carved l self h)) c.1 = c.2 :=
    fun c hc => carved_stored hs ha hf hend hc
  obtain ⟨next, hmem, hunpadded, hpadded⟩ := carved_object l self h
  have hself' := hstored _ List.mem_cons_self
  have hobject := hstored _ hmem
  dsimp only at hself' hobject
  constructor
  case aligned => exact (carveAddr_dvd l self h).symm
  case above =>
    unfold headerSize
    omega
  case within =>
    rw [hm]
    omega
  case allocated =>
    rw [hobject]
    exact ⟨rfl, rfl⟩
  case shrunk =>
    rw [hself', hm]
    exact ⟨rfl, rfl⟩
  case unpadded =>
    intro heq
    rw [hm] at heq
    rw [hobject, hself', hm]
    unfold headerSize
    exact ⟨hunpadded heq, by dsimp only; omega⟩
  case padded =>
    intro hlt
    rw [hm] at hlt
    obtain ⟨hnext, hmem'⟩ := hpadded (Nat.ne_of_lt hlt)
    have hpadding := hstored _ hmem'
    dsimp only at hpadding
    rw [hpadding, hobject, hself', hm]
    unfold headerSize
    exact ⟨_, rfl, hnext, rfl, rfl, by dsimp only; omega, by dsimp only; omega⟩
  case elsewhere =>
    intro a hout
    rw [hm] at hout
    exact carved_elsewhere hs ha hout

end

/-- No request makes `provide` overflow or fail its assertion, on a header whose end is an address.
It splits the header or leaves the memory alone. -/
theorem provide_splits (l : Layout) (m : Mem) (self : Nat) (hself : self % 32 = 0)
    (hsize : (load m self).size % 32 = 0) (hend : self + (load m self).size < 2 ^ 64) :
    ∃ r m', provide m self l.size l.align = .ok (r, m') ∧ (r = none → m' = m) ∧
      ∀ ptr, r = some ptr → Split l m self ptr m' := by
  rcases Nat.eq_zero_or_pos l.size with hz | hl
  · rw [hz, provide_zero]
    exact ⟨none, m, rfl, fun _ => rfl, fun ptr h => absurd h (Option.some_ne_none ptr).symm⟩
  rw [provide_eq l hl]
  by_cases ha : (load m self).Able l
  · have hle : 32 ≤ (load m self).size := by
      have hs := ha.2
      omega
    have hsplit := carved_split rfl ⟨hself, hsize, hle⟩ ha hend
    rw [if_pos ha, carve_eq l hl rfl ha hend]
    exact ⟨some _, _, rfl, fun h => (Option.some_ne_none _ h).elim,
      fun ptr h => Option.some.inj h ▸ hsplit⟩
  · rw [if_neg ha]
    exact ⟨none, m, rfl, fun _ => rfl, fun ptr h => absurd h (Option.some_ne_none ptr).symm⟩

theorem provide_splits_page :
    ∃ r m', provide (store (fun _ => 0) 4096 ⟨none, 4096, false⟩) 4096 1234 1024 = .ok (r, m') ∧
      (r = none → m' = store (fun _ => 0) 4096 ⟨none, 4096, false⟩) ∧
      ∀ ptr, r = some ptr → Split ⟨1234, 1024, ⟨10, rfl⟩, by decide⟩
        (store (fun _ => 0) 4096 ⟨none, 4096, false⟩) 4096 ptr m' :=
  provide_splits ⟨1234, 1024, ⟨10, rfl⟩, by decide⟩ _ 4096 (by decide) (by decide +kernel)
    (by decide +kernel)

end Header

/-- Where the first fit for a layout is found in the header list `cs`, and what the list is
afterwards. -/
structure FirstFit (l : Layout) (heap : Heap) (cs : List (Nat × Header)) (ptr : Nat)
    (heap' : Heap) : Prop where
  null_iff : ptr = 0 ↔ l.size = 0 ∨ ∀ c ∈ cs, ¬c.2.Able l
  null_keeps : ptr = 0 → heap' = heap
  carves : ptr ≠ 0 → ∃ pre c post, cs = pre ++ c :: post ∧ (∀ d ∈ pre, ¬d.2.Able l) ∧
    c.2.Able l ∧ ptr = carveAddr l c.1 c.2 ∧ HeaderList heap' (pre ++ (carved l c.1 c.2 ++ post))

theorem HeapInv.first_fit (h : HeapInv regions heap live cs) (l : Layout) :
    ∃ ptr heap', heap.allocWithOptions l = .ok (ptr, heap') ∧ FirstFit l heap cs ptr heap' := by
  rcases h.alloc_cases l with ⟨hnull, hnone⟩ | ⟨pre, c, post, rfl, hl, hpre, ha, hok⟩
  · exact ⟨0, heap, hnull, iff_of_true rfl hnone, fun _ => rfl, fun hne => absurd rfl hne⟩
  · have hb := carveAddr_bounds l c.1 ha
    have hpos : carveAddr l c.1 c.2 ≠ 0 := by omega
    refine ⟨_, _, hok, iff_of_false hpos fun hnone => ?_, fun hz => absurd hz hpos, fun _ => ?_⟩
    · rcases hnone with hz | hnone
      · omega
      · exact hnone c (by simp) ha
    · exact ⟨pre, c, post, rfl, hpre, ha, rfl, (h.carve hl ha).list⟩

/-- In every heap in use a request is served from the first header of the list that is able to,
and the headers before and behind it stay as they are. -/
theorem alloc_first_fit (map : List EfiMemoryDescriptor) (hv : EfiMemoryDescriptor.ValidMap map)
    (m : Mem) :
    ∃ heap, Heap.initWithMmap ⟨m, none⟩ map = .ok heap ∧
      ∀ s, Runs HeapStep ⟨heap, []⟩ s → ∃ cs, HeaderList s.heap cs ∧
        ∀ l : Layout, ∃ ptr heap', s.heap.allocWithOptions l = .ok (ptr, heap') ∧
          FirstFit l s.heap cs ptr heap' := by
  obtain ⟨heap, hinit, hruns⟩ := heapInv_of_runs hv m
  refine ⟨heap, hinit, fun s hrun => ?_⟩
  obtain ⟨cs, hinv⟩ := hruns s hrun
  exact ⟨cs, hinv.list, hinv.first_fit⟩

theorem alloc_first_fit_smallMap :
    ∃ heap, Heap.initWithMmap ⟨fun _ => 0, none⟩ smallMap = .ok heap ∧
      ∀ s, Runs HeapStep ⟨heap, []⟩ s → ∃ cs, HeaderList s.heap cs ∧
        ∀ l : Layout, ∃ ptr heap', s.heap.allocWithOptions l = .ok (ptr, heap') ∧
          FirstFit l s.heap cs ptr heap' :=
  alloc_first_fit smallMap smallMap_valid fun _ => 0

end Wasabi
