import Wasabi.HeapSafety
import Wasabi.Runs

namespace Wasabi
set_option autoImplicit true

open Header

namespace EfiMemoryDescriptor

def freeRegion (d : EfiMemoryDescriptor) : Option (Nat × Nat) :=
  if d.memoryType = .conventionalMemory ∧ max d.physicalStart 4096 + 4096 < d.physicalEnd then
    some (max d.physicalStart 4096, d.physicalEnd)
  else none

theorem freeRegion_eq_some {d : EfiMemoryDescriptor} (h : d.freeRegion = some r) :
    d.memoryType = .conventionalMemory ∧ r.1 = max d.physicalStart 4096 ∧ r.2 = d.physicalEnd := by
  unfold freeRegion at h
  split at h
  · rename_i hc
    cases h
    exact ⟨hc.1, rfl, rfl⟩
  · cases h

end EfiMemoryDescriptor

def freeRegions (map : List EfiMemoryDescriptor) : List (Nat × Nat) :=
  (map.filterMap (·.freeRegion)).reverse

theorem Formatted.add (h : Formatted regions heap cs) (lo len : Nat) (hlo : 4096 ≤ lo)
    (hmod : lo % 4096 = 0) (hlen : 0 < len) (hlmod : len % 4096 = 0) (hhi : lo + len < 2 ^ 64)
    (hd : ∀ r ∈ regions, lo + len ≤ r.1 ∨ r.2 ≤ lo) :
    Formatted ((lo, lo + len) :: regions)
      ⟨store heap.mem lo ⟨heap.firstHeader, len, false⟩, some lo⟩
      ((lo, ⟨heap.firstHeader, len, false⟩) :: cs) := by
  have hfits : Fits ⟨heap.firstHeader, len, false⟩ := by
    refine ⟨by dsimp only; omega, fun n hn => ?_⟩
    have hl := h.list.links
    cases cs with
    | nil => exact nomatch hl.symm.trans hn
    | cons c cs =>
      have hb := h.bounds (c := c) List.mem_cons_self
      obtain rfl := Option.some.inj (hl.1.symm.trans hn)
      omega
  refine ⟨⟨?_, ?_, ?_⟩, ⟨⟨rfl, h.list.links⟩, ?_⟩, ?_, ?_⟩
  · exact List.forall_mem_cons.2 ⟨hlo, h.good.above⟩
  · exact List.forall_mem_cons.2 ⟨hhi, h.good.below⟩
  · exact List.pairwise_cons.2 ⟨hd, h.good.apart⟩
  · refine List.forall_mem_cons.2 ⟨load_store hfits, fun c hc => ?_⟩
    refine (load_store_ne ?_).trans (h.list.stored c hc)
    obtain ⟨r, hr, hclo, hchi⟩ := h.tiled.mem_bounds hc
    have hs := (h.shaped c hc).size_le
    have hdr := hd r hr
    unfold Apart headerSize
    omega
  · have ht : Tiles Prod.fst (fun c : Nat × Header => c.2.size) lo (lo + len)
        [(lo, ⟨heap.firstHeader, len, false⟩)] := ⟨rfl, rfl⟩
    exact .cons ht h.tiled
  · exact List.forall_mem_cons.2
      ⟨⟨by dsimp only; omega, by dsimp only; omega, by dsimp only; omega⟩, h.shaped⟩

theorem Formatted.empty (m : Mem) : Formatted [] ⟨m, none⟩ [] :=
  ⟨⟨by simp, by simp, .nil⟩, ⟨rfl, by simp⟩, .nil, by simp⟩

theorem HeapInv.single (m : Mem) (lo len : Nat) (hlo : 4096 ≤ lo) (hmod : lo % 4096 = 0)
    (hlen : 0 < len) (hlmod : len % 4096 = 0) (hhi : lo + len < 2 ^ 64) :
    HeapInv [(lo, lo + len)] ⟨store m lo ⟨none, len, false⟩, some lo⟩ []
      [(lo, ⟨none, len, false⟩)] :=
  ⟨(Formatted.empty m).add lo len hlo hmod hlen hlmod hhi (List.forall_mem_nil _),
    List.forall_mem_nil _, .nil⟩

namespace EfiMemoryDescriptor

theorem addFree_eq (heap : Heap) (d : EfiMemoryDescriptor)
    (hc : d.memoryType = .conventionalMemory) (ha : d.physicalStart % 4096 = 0)
    (hb : d.physicalEnd < 2 ^ 64) :
    heap.addFreeFromDescriptor d = .ok (match d.freeRegion with
      | none => heap
      | some r => ⟨store heap.mem r.1 ⟨heap.firstHeader, r.2 - r.1, false⟩, some r.1⟩) := by
  unfold physicalEnd at hb
  rw [Heap.addFreeFromDescriptor, checkedMul_ok (by omega), ok_bind]
  by_cases hz : d.physicalStart = 0
  · simp only [freeRegion, physicalEnd, hc, hz, true_and, if_true, Nat.zero_max, Nat.zero_add]
    by_cases hs : 4096 + 4096 < d.numberOfPages * 4096
    · rw [if_pos hs, if_neg (by omega)]
      rfl
    · rw [if_neg hs, if_pos (by omega)]
      rfl
  · have hm : max d.physicalStart 4096 = d.physicalStart := Nat.max_eq_left (by omega)
    simp only [freeRegion, physicalEnd, hc, hz, hm, true_and, if_false]
    by_cases hs : d.physicalStart + 4096 < d.physicalStart + d.numberOfPages * 4096
    · rw [if_pos hs, if_neg (by omega)]
      simp only [Nat.add_sub_cancel_left]
      rfl
    · rw [if_neg hs, if_pos (by omega)]
      rfl

theorem addFree_formatted (h : Formatted regions heap cs) (d : EfiMemoryDescriptor)
    (hc : d.memoryType = .conventionalMemory) (ha : d.physicalStart % 4096 = 0)
    (hb : d.physicalEnd < 2 ^ 64)
    (hd : ∀ r ∈ regions, d.physicalEnd ≤ r.1 ∨ r.2 ≤ d.physicalStart) :
    ∃ heap' cs', heap.addFreeFromDescriptor d = .ok heap' ∧
      Formatted (d.freeRegion.toList ++ regions) heap' cs' := by
  rw [addFree_eq heap d hc ha hb]
  cases hr : d.freeRegion with
  | none => exact ⟨heap, cs, rfl, h⟩
  | some r =>
    have hlt : max d.physicalStart 4096 + 4096 < d.physicalEnd := by
      by_contra hlt
      simp [freeRegion, hlt] at hr
    obtain ⟨_, hlo, hhi⟩ := freeRegion_eq_some hr
    have hmod : d.physicalEnd % 4096 = 0 := by
      unfold physicalEnd
      omega
    have hadd := h.add r.1 (r.2 - r.1) (by omega) (by omega) (by omega) (by omega)
      (by omega) (fun s hs => by have := hd s hs; omega)
    rw [Nat.add_sub_cancel' (by omega : r.1 ≤ r.2)] at hadd
    exact ⟨_, _, rfl, hadd⟩

end EfiMemoryDescriptor

open EfiMemoryDescriptor in
/-- Setting up the heap never fails and formats exactly the conventional memory. -/
theorem initWithMmap_formatted (h : Formatted regions heap cs) (hv : ValidMap map)
    (hd : ∀ d ∈ map, d.memoryType = .conventionalMemory →
      ∀ r ∈ regions, d.physicalEnd ≤ r.1 ∨ r.2 ≤ d.physicalStart) :
    ∃ heap' cs', heap.initWithMmap map = .ok heap' ∧
      Formatted (freeRegions map ++ regions) heap' cs' := by
  induction map generalizing regions heap cs with
  | nil => exact ⟨heap, cs, rfl, h⟩
  | cons d map ih =>
    rw [Heap.initWithMmap, List.foldlM_cons]
    by_cases hc : d.memoryType = .conventionalMemory
    · have hmem : d ∈ d :: map := List.mem_cons_self
      obtain ⟨heap', cs', hadd, hform⟩ := addFree_formatted h d hc (hv.aligned d hmem hc)
        (hv.bounded d hmem hc) (hd d hmem hc)
      have hpair := hv.disjoint
      rw [List.filter_cons_of_pos (by simpa using hc)] at hpair
      obtain ⟨hfirst, hrest⟩ := List.pairwise_cons.1 hpair
      have hv' : ValidMap map := ⟨fun e he => hv.aligned e (List.mem_cons_of_mem _ he),
        fun e he => hv.bounded e (List.mem_cons_of_mem _ he), hrest⟩
      rw [if_neg (not_not.2 hc), hadd, ok_bind]
      obtain ⟨heap'', cs'', hinit, hform'⟩ := ih hform hv' fun e he hec r hr => by
        rcases List.mem_append.1 hr with hr | hr
        · obtain ⟨_, hlo, hhi⟩ := freeRegion_eq_some (Option.mem_toList.1 hr)
          have hde := hfirst e (List.mem_filter.2 ⟨he, by simpa using hec⟩)
          omega
        · exact hd e (List.mem_cons_of_mem _ he) hec r hr
      refine ⟨heap'', cs'', hinit, ?_⟩
      have hregions : freeRegions (d :: map) = freeRegions map ++ d.freeRegion.toList := by
        unfold freeRegions
        cases hr : d.freeRegion <;> simp [hr]
      rwa [hregions, List.append_assoc]
    · have hskip : d.freeRegion = none := by simp [freeRegion, hc]
      have hv' : ValidMap map := ⟨fun e he => hv.aligned e (List.mem_cons_of_mem _ he),
        fun e he => hv.bounded e (List.mem_cons_of_mem _ he), by
          simpa [List.filter_cons, hc] using hv.disjoint⟩
      rw [if_pos hc]
      obtain ⟨heap', cs', hinit, hform⟩ := ih h hv' fun e he => hd e (List.mem_cons_of_mem _ he)
      refine ⟨heap', cs', hinit, ?_⟩
      rwa [freeRegions, List.filterMap_cons_none hskip]

/-- A heap in use, with the objects that were handed out and not freed since. -/
structure HeapRun where
  heap : Heap
  live : List Block

/-- What can happen to a heap in use. Freed pointers are live ones, and clients write only into
their own objects. -/
inductive HeapStep : HeapRun → HeapRun → Prop where
  | alloc : s.heap.allocWithOptions l = .ok (ptr, heap) → ptr ≠ 0 →
      HeapStep s ⟨heap, ⟨ptr, l⟩ :: s.live⟩
  | allocNull : s.heap.allocWithOptions l = .ok (0, heap) → HeapStep s ⟨heap, s.live⟩
  | dealloc (b : Block) : b ∈ s.live → s.heap.dealloc b.ptr = .ok heap →
      HeapStep s ⟨heap, s.live.filter (·.ptr ≠ b.ptr)⟩
  | write (b : Block) : b ∈ s.live →
      (∀ a, (a < b.ptr ∨ b.ptr + b.layout.size ≤ a) → m a = s.heap.mem a) →
      HeapStep s ⟨{ s.heap with mem := m }, s.live⟩

theorem HeapInv.alloc (h : HeapInv regions heap live cs) (l : Layout) :
    heap.allocWithOptions l = .ok (0, heap) ∨
    ∃ ptr heap' cs', heap.allocWithOptions l = .ok (ptr, heap') ∧ 0 < ptr ∧
      HeapInv regions heap' (⟨ptr, l⟩ :: live) cs' ∧
      ∀ b ∈ live, SameOn heap.mem heap'.mem b.ptr b.layout.size := by
  rcases h.alloc_cases l with ⟨hnull, _⟩ | ⟨pre, c, post, rfl, hl, _, ha, hok⟩
  · exact .inl hnull
  · have hb := carveAddr_bounds l c.1 ha
    exact .inr ⟨_, _, _, hok, by omega, h.carve hl ha, fun b hb => h.carve_same_on ha hb⟩

theorem HeapInv.dealloc (h : HeapInv regions heap live cs) (hb : b ∈ live) :
    ∃ heap' cs', heap.dealloc b.ptr = .ok heap' ∧
      HeapInv regions heap' (live.filter (·.ptr ≠ b.ptr)) cs' ∧
      ∀ a ∈ live, SameOn heap.mem heap'.mem a.ptr a.layout.size := by
  obtain ⟨pre, c, post, rfl, _, hok, hinv⟩ := h.free hb
  exact ⟨_, _, hok, hinv, fun a ha => h.free_same_on (by simp) ha⟩

/-- A step keeps the invariant, next to live objects of `others`, and leaves these alone. -/
theorem HeapInv.step (h : HeapInv regions s.heap (s.live ++ others) cs) (hs : HeapStep s t) :
    (∃ cs', HeapInv regions t.heap (t.live ++ others) cs') ∧
      ∀ b ∈ others, SameOn s.heap.mem t.heap.mem b.ptr b.layout.size := by
  have hothers : ∀ b ∈ others, b ∈ s.live ++ others := fun b hb => List.mem_append_right _ hb
  cases hs with
  | alloc hok hne =>
    rcases h.alloc _ with hnull | ⟨ptr, heap, cs', hok', _, hinv, hsame⟩
    · rw [hnull] at hok
      cases hok
      exact absurd rfl hne
    · rw [hok'] at hok
      cases hok
      exact ⟨⟨cs', hinv⟩, fun b hb => hsame b (hothers b hb)⟩
  | allocNull hok =>
    rcases h.alloc _ with hnull | ⟨ptr, heap, cs', hok', hpos, _⟩
    · rw [hnull] at hok
      cases hok
      exact ⟨⟨cs, h⟩, fun b _ => .refl _ _ _⟩
    · rw [hok'] at hok
      cases hok
      exact absurd hpos (Nat.lt_irrefl 0)
  | dealloc a ha hok =>
    obtain ⟨heap, cs', hok', hinv, hsame⟩ := h.dealloc (List.mem_append_left _ ha)
    rw [hok'] at hok
    cases hok
    have hkeep : others.filter (·.ptr ≠ a.ptr) = others := by
      apply List.filter_eq_self.2
      intro b hb
      have hne := (List.pairwise_append.1 h.distinct).2.2 a ha b hb
      simpa using Ne.symm hne
    rw [List.filter_append, hkeep] at hinv
    exact ⟨⟨cs', hinv⟩, fun b hb => hsame b (hothers b hb)⟩
  | write a ha hm =>
    refine ⟨⟨cs, h.write (List.mem_append_left _ ha) hm⟩, fun b hb x hl hu => hm x ?_⟩
    have hapart := (List.pairwise_append.1 h.blocks_apart).2.2 a ha b hb
    unfold Apart at hapart
    omega

theorem heapInv_of_runs (hv : EfiMemoryDescriptor.ValidMap map) (m : Mem) :
    ∃ heap, Heap.initWithMmap ⟨m, none⟩ map = .ok heap ∧
      ∀ s, Runs HeapStep ⟨heap, []⟩ s → ∃ cs, HeapInv (freeRegions map) s.heap s.live cs := by
  obtain ⟨heap, cs, hinit, hform⟩ := initWithMmap_formatted (.empty m) hv (by simp)
  rw [List.append_nil] at hform
  refine ⟨heap, hinit, fun s hrun => ?_⟩
  refine hrun.invariant (fun s => ∃ cs, HeapInv (freeRegions map) s.heap s.live cs)
    (fun s t ⟨cs, h⟩ hs => ?_) ⟨cs, hform, by simp, .nil⟩
  rw [← List.append_nil s.live] at h
  simpa only [List.append_nil] using (h.step hs).1

/-- What the users of the heap rely on, for the header list `cs` found in memory. -/
structure HeapSafe (map : List EfiMemoryDescriptor) (s : HeapRun) (cs : List (Nat × Header)) :
    Prop where
  headers : HeaderList s.heap cs
  tiled : Covers Prod.fst (fun c => c.2.size) (freeRegions map) cs
  shaped : ∀ c ∈ cs, c.1 % 32 = 0 ∧ 32 ≤ c.2.size
  blocks : s.live.Pairwise fun a b => Apart a.ptr a.layout.size b.ptr b.layout.size
  clear : ∀ b ∈ s.live, ∀ c ∈ cs, Apart b.ptr b.layout.size c.1 headerSize
  within : ∀ b ∈ s.live, ∃ d ∈ map, d.memoryType = .conventionalMemory ∧
    d.physicalStart ≤ b.ptr ∧ b.ptr + b.layout.size ≤ d.physicalEnd
  above : ∀ b ∈ s.live, 4096 ≤ b.ptr
  alloc_keeps : ∀ l, ∃ ptr heap, s.heap.allocWithOptions l = .ok (ptr, heap) ∧
    ∀ b ∈ s.live, SameOn s.heap.mem heap.mem b.ptr b.layout.size
  dealloc_keeps : ∀ a ∈ s.live, ∃ heap, s.heap.dealloc a.ptr = .ok heap ∧
    ∀ b ∈ s.live, SameOn s.heap.mem heap.mem b.ptr b.layout.size

theorem HeapInv.safe (h : HeapInv (freeRegions map) s.heap s.live cs) : HeapSafe map s cs where
  headers := h.list
  tiled := h.tiled
  shaped c hc := ⟨(h.shaped c hc).addr_mod, (h.shaped c hc).size_le⟩
  blocks := h.blocks_apart
  clear b hb c hc := h.header_apart hb hc
  within b hb := by
    obtain ⟨r, hr, hlo, hhi⟩ := h.bounds hb
    obtain ⟨d, hd, hdr⟩ := List.mem_filterMap.1 (List.mem_reverse.1 hr)
    obtain ⟨hc, hrlo, hrhi⟩ := EfiMemoryDescriptor.freeRegion_eq_some hdr
    exact ⟨d, hd, hc, by omega, by omega⟩
  above b hb := by
    obtain ⟨r, hr, hlo, _⟩ := h.bounds hb
    exact (h.good.above r hr).trans hlo
  alloc_keeps l := by
    rcases h.alloc l with hnull | ⟨ptr, heap, _, hok, _, _, hsame⟩
    · exact ⟨0, s.heap, hnull, fun b _ => .refl _ _ _⟩
    · exact ⟨ptr, heap, hok, hsame⟩
  dealloc_keeps a ha := by
    obtain ⟨heap, _, hok, _, hsame⟩ := h.dealloc ha
    exact ⟨heap, hok, hsame⟩

/-- In every run after `init_with_mmap` the headers tile the conventional memory, and live objects
stay apart from each other and from every header. -/
theorem heap_safety (map : List EfiMemoryDescriptor) (hv : EfiMemoryDescriptor.ValidMap map)
    (m : Mem) :
    ∃ heap, Heap.initWithMmap ⟨m, none⟩ map = .ok heap ∧
      ∀ s, Runs HeapStep ⟨heap, []⟩ s → ∃ cs, HeapSafe map s cs := by
  obtain ⟨heap, hinit, hruns⟩ := heapInv_of_runs hv m
  refine ⟨heap, hinit, fun s hrun => ?_⟩
  obtain ⟨cs, hinv⟩ := hruns s hrun
  exact ⟨cs, hinv.safe⟩

def smallMap : List EfiMemoryDescriptor :=
  [⟨.loaderCode, 0, 1⟩, ⟨.conventionalMemory, 4096, 3⟩]

theorem smallMap_valid : EfiMemoryDescriptor.ValidMap smallMap := by
  refine ⟨by decide, by decide, ?_⟩
  simp [smallMap]

theorem heap_safety_smallMap :
    ∃ heap, Heap.initWithMmap ⟨fun _ => 0, none⟩ smallMap = .ok heap ∧
      ∀ s, Runs HeapStep ⟨heap, []⟩ s → ∃ cs, HeapSafe smallMap s cs :=
  heap_safety smallMap smallMap_valid fun _ => 0

end Wasabi
