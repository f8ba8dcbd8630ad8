import Wasabi.Bytes
import Wasabi.Tiling

namespace Wasabi
set_option autoImplicit true

def fillCells (n v : Nat) (m : Mem) (cells : List Nat) : Mem :=
  cells.foldl (fun m a => writeLe m a n v) m

theorem fillCells_frame (h : ∀ c ∈ cells, b < c ∨ c + n ≤ b) : fillCells n v m cells b = m b := by
  induction cells generalizing m with
  | nil => rfl
  | cons c cells ih =>
    obtain ⟨hc, hcells⟩ := List.forall_mem_cons.1 h
    rw [fillCells, List.foldl_cons]
    refine (ih hcells).trans ?_
    rw [writeLe, if_neg (by omega)]

theorem readLe_fillCells (h : ∀ c ∈ cells, c = a ∨ Apart a n c n) (hv : v < 256 ^ n) :
    readLe (fillCells n v m cells) a n = if a ∈ cells then v else readLe m a n := by
  induction cells generalizing m with
  | nil => rfl
  | cons c cells ih =>
    obtain ⟨hc, hcells⟩ := List.forall_mem_cons.1 h
    rw [fillCells, List.foldl_cons]
    refine (ih hcells).trans ?_
    by_cases hmem : a ∈ cells
    · rw [if_pos hmem, if_pos (List.mem_cons_of_mem _ hmem)]
    · rw [if_neg hmem]
      rcases hc with rfl | hapart
      · rw [if_pos List.mem_cons_self, readLe_writeLe_of_lt hv]
      · rw [readLe_writeLe_ne hapart]
        split
        · next hin =>
          rcases List.mem_cons.1 hin with rfl | hin
          · -- A cell is apart from itself only when it is empty.
            obtain rfl : n = 0 := by
              unfold Apart at hapart
              omega
            rw [pow_zero] at hv
            rw [readLe]
            omega
          · exact absurd hin hmem
        · rfl

end Wasabi
