import Wasabi.HeapReuse
import Wasabi.Mapping

namespace Wasabi
set_option autoImplicit true

open Header Entry Table

/-- The state behind `ALLOCATOR`: the head of the header list, the objects that the kernel holds
as boxes, and the page tables that `populate` has leaked. -/
structure KernelHeap where
  firstHeader : Option Nat
  boxes : List Block
  tables : List Nat

abbrev Machine.toHeap (s : Machine KernelHeap) : Heap := ⟨s.mem, s.heap.firstHeader⟩

def tableBlock (t : Nat) : Block := ⟨t, layoutPage4k⟩

/-- `Box::new` of a zeroed table on `FirstFitAllocator`; a null pointer aborts. -/
def tableNew : BoxNew KernelHeap := fun s =>
  match s.toHeap.allocWithOptions layoutPage4k with
  | .ok (ptr, heap) =>
    if ptr = 0 then none
    else some (ptr, ⟨zeroFill heap.mem ptr 4096,
      ⟨heap.firstHeader, s.heap.boxes, ptr :: s.heap.tables⟩⟩)
  | .error _ => none

/-- The heap is in order with the boxes of the kernel and the page tables `ts` as live objects, and
it has room for `n` page tables in all. -/
structure OwnsPages (regions : List (Nat × Nat)) (boxes : List Block) (n : Nat) (ts : List Nat)
    (s : Machine KernelHeap) : Prop where
  boxes_eq : s.heap.boxes = boxes
  tables_eq : s.heap.tables = ts
  inv : ∃ cs, HeapInv regions s.toHeap (boxes ++ ts.map tableBlock) cs ∧
    n ≤ capacity layoutPage4k cs + ts.length

theorem tableNew_fresh (regions : List (Nat × Nat)) (boxes : List Block) (n : Nat) :
    FreshTables tableNew (OwnsPages regions boxes n) where
  fresh ts s t s' h hn := by
    obtain ⟨hboxes, htables, cs, hinv, hroom⟩ := h
    unfold tableNew at hn
    rcases hinv.allocRoom layoutPage4k_pos with
      ⟨_, hnull⟩ | ⟨ptr, heap', cs', hok, hne, hinv', hcap, hsame⟩
    · rw [hnull] at hn
      cases hn
    · rw [hok] at hn
      dsimp only at hn
      rw [if_neg hne] at hn
      cases hn
      have hmem : tableBlock t ∈ tableBlock t :: (boxes ++ ts.map tableBlock) := List.mem_cons_self
      obtain ⟨r, hr, hlo, hhi⟩ := hinv'.bounds hmem
      have hbelow := hinv'.good.below r hr
      have htable : ∀ u ∈ ts, tableBlock u ∈ boxes ++ ts.map tableBlock := fun u hu =>
        List.mem_append_right _ (List.mem_map_of_mem hu)
      refine ⟨⟨Nat.mod_eq_zero_of_dvd (hinv'.aligned hmem), ?_, fun ht => ?_,
        fun b hl hu => zeroFill_zero hl hu, fun u hu => (hsame _ (htable u hu)).trans ?_⟩,
        hboxes, by rw [htables], cs', ?_, by rw [List.length_cons]; omega⟩
      · exact (Nat.le_of_lt (lt_of_le_of_lt hhi hbelow))
      · exact (List.pairwise_cons.1 hinv'.distinct).1 _ (htable t ht) rfl
      · have hapart := (List.pairwise_cons.1 hinv'.blocks_apart).1 _ (htable u hu)
        exact zeroFill_same_on hapart.symm
      · have hzero := hinv'.write (m := zeroFill heap'.mem t 4096) hmem fun a ha =>
          if_neg (by simp only [tableBlock, layoutPage4k] at ha; omega)
        exact hzero.perm (List.perm_middle.symm)
  write ts s t i v h ht hi := by
    obtain ⟨hboxes, htables, cs, hinv, hroom⟩ := h
    refine ⟨hboxes, htables, cs, hinv.write (b := tableBlock t)
      (List.mem_append_right _ (List.mem_map_of_mem ht)) fun a ha => if_neg ?_, hroom⟩
    simp only [tableBlock, layoutPage4k] at ha
    unfold entry
    omega

theorem OwnsPages.less (h : OwnsPages regions boxes n ts s) (hle : n' ≤ n) :
    OwnsPages regions boxes n' ts s := by
  obtain ⟨hboxes, htables, cs, hinv, hroom⟩ := h
  exact ⟨hboxes, htables, cs, hinv, hle.trans hroom⟩

/-- A table is refused only where a complete tree of tables has no room. -/
theorem tableNew_refuses (h : OwnsPages regions boxes n ts s) (hle : ts.length ≤ maxTables)
    (hnone : tableNew s = none) : n ≤ maxTables := by
  obtain ⟨_, _, cs, hinv, hroom⟩ := h
  unfold tableNew at hnone
  rcases hinv.allocRoom layoutPage4k_pos with ⟨hz, _⟩ | ⟨ptr, heap', cs', hok, hne, _⟩
  · omega
  · rw [hok] at hnone
    dsimp only at hnone
    rw [if_neg hne] at hnone
    cases hnone

def LacksTables (s : Machine KernelHeap) : Prop :=
  ∃ cs, HeaderList s.toHeap cs ∧ capacity layoutPage4k cs + s.heap.tables.length ≤ maxTables

end Wasabi
