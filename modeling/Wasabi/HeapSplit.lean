import Wasabi.Boxes

namespace Wasabi
set_option autoImplicit true

open Header

/-- The blocks of the header list `ds` are pieces of those of `cs`. -/
abbrev Pieces (cs ds : List (Nat × Header)) : Prop := Cuts Prod.fst (fun c => c.2.size) cs ds

theorem HeapInv.step_pieces {s t : HeapRun} (h : HeapInv regions s.heap s.live cs)
    (hs : HeapStep s t) : ∃ ds, HeapInv regions t.heap t.live ds ∧ Pieces cs ds := by
  cases hs with
  | @alloc _ _ _ l hok hne =>
    rcases h.alloc_cases l with ⟨hnull, _⟩ | ⟨pre, c, post, rfl, hl, _, ha, hok'⟩
    · rw [hnull] at hok
      cases hok
      exact absurd rfl hne
    · rw [hok'] at hok
      cases hok
      exact ⟨_, h.carve hl ha, .replace (carved_tiles _ c.1 ha) pre post⟩
  | @allocNull _ _ l hok =>
    rcases h.alloc_cases l with ⟨hnull, _⟩ | ⟨pre, c, post, rfl, _, _, ha, hok'⟩
    · rw [hnull] at hok
      cases hok
      exact ⟨cs, h, .refl cs⟩
    · have hb := carveAddr_bounds l c.1 ha
      rw [hok'] at hok
      injection hok with hok
      injection hok with hptr _
      omega
  | dealloc b hb hok =>
    obtain ⟨pre, c, post, rfl, _, hok', hinv⟩ := h.free hb
    rw [hok'] at hok
    cases hok
    have ht : Tiles Prod.fst (fun c => c.2.size) c.1 (c.1 + c.2.size)
        [(c.1, { c.2 with isAllocated := false })] := ⟨rfl, rfl⟩
    exact ⟨_, hinv, .replace ht pre post⟩
  | write b hb hm => exact ⟨cs, h.write hb hm, .refl cs⟩

theorem HeapInv.runs_pieces {s t : HeapRun} (h : HeapInv regions s.heap s.live cs)
    (hs : Runs HeapStep s t) : ∃ ds, HeapInv regions t.heap t.live ds ∧ Pieces cs ds := by
  refine hs.invariant (fun t => ∃ ds, HeapInv regions t.heap t.live ds ∧ Pieces cs ds)
    (fun u v ⟨ds, hu, hpieces⟩ huv => ?_) ⟨cs, h, .refl cs⟩
  obtain ⟨es, hv, hmore⟩ := hu.step_pieces huv
  exact ⟨es, hv, hpieces.trans hmore⟩

structure SplitForever (cs ds : List (Nat × Header)) (heap : Heap) : Prop where
  nested : ∀ d ∈ ds, ∃ c ∈ cs, c.1 ≤ d.1 ∧ d.1 + d.2.size ≤ c.1 + c.2.size
  kept : ∀ c ∈ cs, ∃ d ∈ ds, d.1 = c.1
  refused : ∀ l : Layout, (∀ c ∈ cs, c.2.size < l.needed) → heap.allocWithOptions l = .ok (0, heap)

theorem HeapInv.split_forever {s t : HeapRun} (h : HeapInv regions s.heap s.live cs)
    (h' : HeapInv regions t.heap t.live ds) (hpieces : Pieces cs ds) :
    SplitForever cs ds t.heap where
  nested d hd := hpieces.nested hd
  kept c hc := hpieces.starts (fun c hc => by have hs := (h.shaped c hc).size_le; omega) hc
  refused l hsmall := by
    rcases h'.alloc_cases l with ⟨hnull, _⟩ | ⟨pre, d, post, rfl, _, _, ha, _⟩
    · exact hnull
    · obtain ⟨c, hc, hlo, hhi⟩ := hpieces.nested (y := d) (by simp)
      have hlt := hsmall c hc
      have hle := ha.2
      unfold Layout.needed at hlt
      omega

/-- Blocks are never merged: whatever is freed, the header list only gets finer, and a layout that
no block of the heap is large enough for, in use or not, is refused from then on. -/
theorem split_permanent (map : List EfiMemoryDescriptor) (hv : EfiMemoryDescriptor.ValidMap map)
    (m : Mem) :
    ∃ heap, Heap.initWithMmap ⟨m, none⟩ map = .ok heap ∧
      ∀ s, Runs HeapStep ⟨heap, []⟩ s → ∃ cs, HeaderList s.heap cs ∧
        ∀ t, Runs HeapStep s t → ∃ ds, HeaderList t.heap ds ∧ SplitForever cs ds t.heap := by
  obtain ⟨heap, hinit, hruns⟩ := heapInv_of_runs hv m
  refine ⟨heap, hinit, fun s hs => ?_⟩
  obtain ⟨cs, hinv⟩ := hruns s hs
  refine ⟨cs, hinv.list, fun t ht => ?_⟩
  obtain ⟨ds, hinv', hpieces⟩ := hinv.runs_pieces ht
  exact ⟨ds, hinv'.list, hinv.split_forever hinv' hpieces⟩

theorem split_permanent_smallMap :
    ∃ heap, Heap.initWithMmap ⟨fun _ => 0, none⟩ smallMap = .ok heap ∧
      ∀ s, Runs HeapStep ⟨heap, []⟩ s → ∃ cs, HeaderList s.heap cs ∧
        ∀ t, Runs HeapStep s t → ∃ ds, HeaderList t.heap ds ∧ SplitForever cs ds t.heap :=
  split_permanent smallMap smallMap_valid fun _ => 0

end Wasabi
