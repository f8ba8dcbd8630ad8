import Wasabi.HeapRuns

namespace Wasabi
set_option autoImplicit true

open Header

theorem sub_div_mul (ha : 0 < a) (hx : x ≤ a * q) :
    (a * q - x) / a * a = a * q - (x + a - 1) / a * a := by
  have hm := Nat.div_add_mod (x + a - 1) a
  have hlt := Nat.mod_lt (x + a - 1) ha
  have hq : (x + a - 1) / a ≤ q := by
    refine Nat.lt_succ_iff.1 ((Nat.div_lt_iff_lt_mul ha).2 ?_)
    rw [Nat.succ_mul, Nat.mul_comm]
    omega
  obtain ⟨d, rfl⟩ := Nat.exists_eq_add_of_le hq
  generalize (x + a - 1) / a = r at *
  have hdiv : (a * (r + d) - x) / a = d := by
    apply Nat.div_eq_of_lt_le
    · rw [Nat.mul_add, Nat.mul_comm d]
      omega
    · rw [Nat.mul_add, Nat.add_mul, Nat.mul_comm d]
      omega
  rw [hdiv, Nat.mul_add, Nat.mul_comm r, Nat.add_sub_cancel_left, Nat.mul_comm]

namespace Header

/-- How far below an object the next object carved from the same header starts. -/
def blockStep (l : Layout) : Nat :=
  (blockSize l.size + headerSize + blockAlign l.align - 1) / blockAlign l.align * blockAlign l.align

/-- The lowest address of an object that leaves a header able to provide once more. -/
def roomyAddr (l : Layout) (self : Nat) : Nat :=
  self + blockSize l.size + blockAlign l.align + 96

/-- The number of objects of one layout that a header can provide one after the other. -/
def rooms (l : Layout) (self : Nat) (h : Header) : Nat :=
  if h.Able l then
    ((self + h.size - blockSize l.size) / blockAlign l.align * blockAlign l.align + blockStep l -
      roomyAddr l self) / blockStep l + 1
  else 0

theorem rooms_eq_zero (h : ¬Able l hdr) : rooms l self hdr = 0 := if_neg h

theorem blockStep_bounds (l : Layout) :
    blockSize l.size + 32 ≤ blockStep l ∧
      blockStep l < blockSize l.size + 32 + blockAlign l.align := by
  have hp := blockAlign_pos l.align
  have hpos : 0 < blockAlign l.align := by omega
  have hm := Nat.div_add_mod (blockSize l.size + headerSize + blockAlign l.align - 1)
    (blockAlign l.align)
  have hlt := Nat.mod_lt (blockSize l.size + headerSize + blockAlign l.align - 1) hpos
  unfold blockStep
  rw [Nat.mul_comm]
  unfold headerSize at *
  omega

/-- Carving uses up exactly one room. -/
theorem rooms_carve (next : Option Nat) (ha : Able l h) :
    rooms l self h = rooms l self
      { h with nextHeader := next, size := carveAddr l self h - headerSize - self } + 1 := by
  generalize hd : ({ h with nextHeader := next, size := carveAddr l self h - headerSize - self } :
    Header) = shrunk
  have hn : shrunk.isAllocated = false := hd ▸ ha.1
  have hs : shrunk.size = carveAddr l self h - headerSize - self := hd ▸ rfl
  have hb := carveAddr_bounds l self ha
  have hp := blockAlign_pos l.align
  have hstep := blockStep_bounds l
  rw [rooms, if_pos ha, ← carveAddr]
  by_cases hr : roomyAddr l self ≤ carveAddr l self h
  · have hshrunk : Able l shrunk := by
      refine ⟨hn, ?_⟩
      unfold roomyAddr at hr
      unfold headerSize at hs
      omega
    have hnext : (self + shrunk.size - blockSize l.size) / blockAlign l.align * blockAlign l.align =
        carveAddr l self h - blockStep l := by
      obtain ⟨q, hq⟩ : blockAlign l.align ∣ carveAddr l self h := Nat.dvd_mul_left _ _
      have hx : self + shrunk.size - blockSize l.size =
          blockAlign l.align * q - (blockSize l.size + headerSize) := by
        unfold headerSize at hs ⊢
        omega
      rw [hx, sub_div_mul (by omega) (by unfold roomyAddr at hr; unfold headerSize; omega), hq]
      rfl
    rw [rooms, if_pos hshrunk, hnext]
    have hle : blockStep l ≤ carveAddr l self h := by
      unfold roomyAddr at hr
      omega
    rw [Nat.sub_add_cancel hle, Nat.sub_add_comm hr, Nat.add_div_right _ (by omega)]
  · have hshrunk : ¬Able l shrunk := by
      rintro ⟨_, hsize⟩
      unfold roomyAddr at hr
      unfold headerSize at hs
      omega
    rw [rooms_eq_zero hshrunk, Nat.div_eq_of_lt (by omega)]

/-- A block that was handed out for a layout cannot provide that layout again, free or not. -/
theorem rooms_block (hs : hdr.size = blockSize l.size + headerSize) : rooms l self hdr = 0 := by
  apply rooms_eq_zero
  intro ha
  have hp := blockAlign_pos l.align
  have hsize := ha.2
  unfold headerSize at hs
  omega

end Header

def capacity (l : Layout) (cs : List (Nat × Header)) : Nat :=
  (cs.map fun c => rooms l c.1 c.2).sum

theorem capacity_append : capacity l (xs ++ ys) = capacity l xs + capacity l ys := by
  simp [capacity]

theorem capacity_cons : capacity l (c :: cs) = rooms l c.1 c.2 + capacity l cs := by
  simp [capacity]

theorem capacity_eq_zero (h : ∀ c ∈ cs, ¬c.2.Able l) : capacity l cs = 0 := by
  induction cs with
  | nil => rfl
  | cons c cs ih =>
    obtain ⟨hc, hcs⟩ := List.forall_mem_cons.1 h
    rw [capacity_cons, rooms_eq_zero hc, ih hcs]

/-- Of the headers that carving leaves behind only the shrunk one can provide the layout again:
the padding is shorter than the alignment. -/
theorem capacity_carved (l : Layout) (self : Nat) (ha : Able l h) :
    rooms l self h = capacity l (carved l self h) + 1 := by
  have hblock : ∀ n, rooms l (carveAddr l self h - headerSize)
      ⟨n, blockSize l.size + headerSize, true⟩ = 0 := fun n => rooms_block rfl
  unfold carved
  dsimp only
  rw [rooms_carve (some (carveAddr l self h - headerSize)) ha]
  split
  · rw [capacity_cons, capacity_cons, hblock]
    rfl
  · have hpad : ∀ n,
        ¬Able l ⟨n, self + h.size - (carveAddr l self h + blockSize l.size), false⟩ := by
      rintro n ⟨_, hsize⟩
      have hlt := lt_carveAddr l self h
      dsimp only at hsize
      omega
    rw [capacity_cons, capacity_cons, capacity_cons, hblock, rooms_eq_zero (hpad _)]
    rfl

/-- One round of `alloc` and `dealloc`; there is no heap to go on with when `alloc` returns null. -/
def Heap.allocFree (heap : Heap) (l : Layout) : Except Fault (Option Heap) := do
  let (ptr, heap) ← heap.allocWithOptions l
  if ptr = 0 then
    return none
  return some (← heap.dealloc ptr)

def Heap.rounds (l : Layout) : Nat → Heap → Except Fault (Option Heap)
  | 0, heap => return some heap
  | n + 1, heap => do
    match ← heap.allocFree l with
    | none => return none
    | some heap => Heap.rounds l n heap

/-- Giving back a block does not make its header able to provide the same layout. -/
theorem capacity_free {b : Block} (hb : b.HeldBy c) (pre post : List (Nat × Header)) :
    capacity b.layout (pre ++ (c.1, { c.2 with isAllocated := false }) :: post) =
      capacity b.layout (pre ++ c :: post) := by
  have hfree : rooms b.layout c.1 { c.2 with isAllocated := false } = 0 := rooms_block hb.size_eq
  have hheld : rooms b.layout c.1 c.2 = 0 := rooms_block hb.size_eq
  rw [capacity_append, capacity_append, capacity_cons, capacity_cons, hheld, hfree]

theorem HeapInv.allocRoom (h : HeapInv regions heap live cs) (hl : 0 < l.size) :
    (capacity l cs = 0 ∧ heap.allocWithOptions l = .ok (0, heap)) ∨
    ∃ ptr heap' cs', heap.allocWithOptions l = .ok (ptr, heap') ∧ ptr ≠ 0 ∧
      HeapInv regions heap' (⟨ptr, l⟩ :: live) cs' ∧ capacity l cs = capacity l cs' + 1 ∧
      ∀ b ∈ live, SameOn heap.mem heap'.mem b.ptr b.layout.size := by
  rcases h.alloc_cases l with ⟨hnull, hz | hnone⟩ | ⟨pre, c, post, rfl, _, _, ha, hok⟩
  · omega
  · exact .inl ⟨capacity_eq_zero hnone, hnull⟩
  · right
    have hb := carveAddr_bounds l c.1 ha
    refine ⟨_, _, _, hok, by omega, h.carve hl ha, ?_, fun b hb => h.carve_same_on ha hb⟩
    rw [capacity_append, capacity_append, capacity_append, capacity_cons, capacity_carved l c.1 ha]
    omega

/-- A round of `alloc` and `dealloc` finds no room, or it uses up exactly one. -/
theorem HeapInv.allocFree (h : HeapInv regions heap live cs) (hl : 0 < l.size) :
    (capacity l cs = 0 ∧ heap.allocWithOptions l = .ok (0, heap)) ∨
    ∃ ptr heap1 heap2 live' cs', heap.allocWithOptions l = .ok (ptr, heap1) ∧ ptr ≠ 0 ∧
      heap1.dealloc ptr = .ok heap2 ∧ HeapInv regions heap2 live' cs' ∧
      capacity l cs = capacity l cs' + 1 := by
  rcases h.allocRoom hl with hnull | ⟨ptr, heap1, cs1, hok, hne, hinv, hcap, _⟩
  · exact .inl hnull
  · right
    obtain ⟨pre, c, post, rfl, hheld, hfree, hinv'⟩ := hinv.free List.mem_cons_self
    have hsame : capacity l _ = capacity l _ := capacity_free hheld pre post
    exact ⟨ptr, heap1, _, _, _, hok, hne, hfree, hinv', hcap.trans (congrArg (· + 1) hsame.symm)⟩

theorem HeapInv.rounds_iff (h : HeapInv regions heap live cs) (hl : 0 < l.size) :
    (∃ heap', heap.rounds l n = .ok (some heap')) ↔ n ≤ capacity l cs := by
  induction n generalizing heap live cs with
  | zero => exact ⟨fun _ => Nat.zero_le _, fun _ => ⟨heap, rfl⟩⟩
  | succ n ih =>
    rcases h.allocFree hl with ⟨hz, hnull⟩ |
      ⟨ptr, heap1, heap2, _, cs', hok, hne, hfree, hinv, hcap⟩
    · rw [Heap.rounds, Heap.allocFree, hnull, hz]
      refine ⟨fun ⟨heap', hr⟩ => ?_, fun hn => absurd hn (by omega)⟩
      cases hr
    · have hround : heap.allocFree l = .ok (some heap2) := by
        rw [Heap.allocFree, hok, ok_bind]
        dsimp only
        rw [if_neg hne, hfree]
        rfl
      rw [Heap.rounds, hround, ok_bind, hcap, Nat.succ_le_succ_iff]
      exact ih hinv

/-- In every reachable heap the free headers decide how often a layout can be had: an `alloc` after
a round of `alloc` and `dealloc` succeeds exactly when there is room for two objects, and `n`
rounds succeed exactly when there is room for `n`. -/
theorem heap_reuse (map : List EfiMemoryDescriptor) (hv : EfiMemoryDescriptor.ValidMap map)
    (m : Mem) :
    ∃ heap, Heap.initWithMmap ⟨m, none⟩ map = .ok heap ∧
      ∀ s, Runs HeapStep ⟨heap, []⟩ s → ∃ cs, HeaderList s.heap cs ∧ ∀ l : Layout, 0 < l.size →
        (∀ ptr heap1 heap2, s.heap.allocWithOptions l = .ok (ptr, heap1) → ptr ≠ 0 →
          heap1.dealloc ptr = .ok heap2 →
          ((∃ ptr' heap3, heap2.allocWithOptions l = .ok (ptr', heap3) ∧ ptr' ≠ 0) ↔
            2 ≤ capacity l cs)) ∧
        ∀ n, (∃ heap', s.heap.rounds l n = .ok (some heap')) ↔ n ≤ capacity l cs := by
  obtain ⟨heap, hinit, hruns⟩ := heapInv_of_runs hv m
  refine ⟨heap, hinit, fun s hrun => ?_⟩
  obtain ⟨cs, hinv⟩ := hruns s hrun
  refine ⟨cs, hinv.list, fun l hl => ⟨fun ptr heap1 heap2 halloc hne hfree => ?_,
    fun n => hinv.rounds_iff hl⟩⟩
  rcases hinv.allocFree hl with ⟨_, hnull⟩ | ⟨_, _, _, _, cs', hok, _, hfree', hinv', hcap⟩
  · rw [hnull] at halloc
    cases halloc
    exact absurd rfl hne
  · rw [hok] at halloc
    cases halloc
    rw [hfree'] at hfree
    cases hfree
    rw [hcap]
    rcases hinv'.allocFree hl with ⟨hz, hnull⟩ | ⟨ptr', heap3, _, _, _, hok', hne', _, _, hcap'⟩
    · rw [hz, hnull]
      refine ⟨fun ⟨ptr', heap3, he, hne'⟩ => ?_, fun h => absurd h (by omega)⟩
      cases he
      exact absurd rfl hne'
    · exact ⟨fun _ => by omega, fun _ => ⟨ptr', heap3, hok', hne'⟩⟩

theorem heap_reuse_smallMap :
    ∃ heap, Heap.initWithMmap ⟨fun _ => 0, none⟩ smallMap = .ok heap ∧
      ∀ s, Runs HeapStep ⟨heap, []⟩ s → ∃ cs, HeaderList s.heap cs ∧ ∀ l : Layout, 0 < l.size →
        (∀ ptr heap1 heap2, s.heap.allocWithOptions l = .ok (ptr, heap1) → ptr ≠ 0 →
          heap1.dealloc ptr = .ok heap2 →
          ((∃ ptr' heap3, heap2.allocWithOptions l = .ok (ptr', heap3) ∧ ptr' ≠ 0) ↔
            2 ≤ capacity l cs)) ∧
        ∀ n, (∃ heap', s.heap.rounds l n = .ok (some heap')) ↔ n ≤ capacity l cs :=
  heap_reuse smallMap smallMap_valid fun _ => 0

theorem capacity_smallMap (next : Option Nat) :
    capacity layoutPage4k [(4096, ⟨next, 12288, false⟩)] = 1 := by
  have hclog : Nat.clog 2 4096 = 12 := Nat.clog_pow 2 12 (by omega)
  have hsize : blockSize layoutPage4k.size = 4096 := by
    have h4096 : layoutPage4k.size = 4096 := rfl
    rw [blockSize, h4096, hclog]
    rfl
  have halign : blockAlign layoutPage4k.align = 4096 := rfl
  simp [capacity, rooms, Able, blockStep, roomyAddr, hsize, halign, headerSize]

/-- Of three pages of memory one page can be had only once, although it is given back in between. -/
theorem page_alloc_once :
    ∃ heap ptr heap1 heap2, Heap.initWithMmap ⟨fun _ => 0, none⟩ smallMap = .ok heap ∧
      heap.allocWithOptions layoutPage4k = .ok (ptr, heap1) ∧ ptr ≠ 0 ∧
      heap1.dealloc ptr = .ok heap2 ∧ heap2.allocWithOptions layoutPage4k = .ok (0, heap2) := by
  have hinv := HeapInv.single (fun _ => 0) 4096 12288 (by omega) (by omega) (by omega) (by omega)
    (by omega)
  have hcap := capacity_smallMap none
  rcases hinv.allocFree layoutPage4k_pos with ⟨hz, _⟩ |
    ⟨ptr, heap1, heap2, _, cs', hok, hne, hfree, hinv', hcap'⟩
  · omega
  · rcases hinv'.allocFree layoutPage4k_pos with ⟨_, hnull⟩ | ⟨_, _, _, _, _, _, _, _, _, hcap''⟩
    · exact ⟨_, ptr, heap1, heap2, rfl, hok, hne, hfree, hnull⟩
    · omega

end Wasabi
