import Mathlib.Data.List.Basic

namespace Wasabi
set_option autoImplicit true

/-- Consecutive parts of `n` elements, the last one possibly shorter. -/
def chunks (n : Nat) : List α → List (List α)
  | [] => []
  | x :: xs => (x :: xs.take (n - 1)) :: chunks n (xs.drop (n - 1))
termination_by xs => xs.length
decreasing_by
  rw [List.length_drop, List.length_cons]
  omega

theorem chunks_short {x : List α} (h : x ≠ []) (hn : x.length ≤ n) : chunks n x = [x] := by
  cases x with
  | nil => exact absurd rfl h
  | cons a x =>
    rw [List.length_cons] at hn
    rw [chunks, List.take_of_length_le (by omega), List.drop_of_length_le (by omega), chunks]

theorem chunks_append {x : List α} (h : x.length = n) (hn : 0 < n) (xs : List α) :
    chunks n (x ++ xs) = x :: chunks n xs := by
  cases x with
  | nil => exact absurd h.symm (Nat.ne_of_gt hn)
  | cons a x =>
    have hlen : n - 1 = x.length := by
      rw [← h, List.length_cons, Nat.add_sub_cancel]
    rw [List.cons_append, chunks, hlen, List.take_left, List.drop_left]

theorem chunks_flatten {xss : List (List α)} (hn : 0 < n) (hfull : ∀ x ∈ xss, x.length = n)
    (rest : List α) : chunks n (xss.flatten ++ rest) = xss ++ chunks n rest := by
  induction xss with
  | nil => rfl
  | cons x xss ih =>
    obtain ⟨hx, hxss⟩ := List.forall_mem_cons.1 hfull
    rw [List.flatten_cons, List.append_assoc, chunks_append hx hn, ih hxss]
    rfl

theorem length_flatten {xss : List (List α)} (hfull : ∀ x ∈ xss, x.length = n) :
    xss.flatten.length = n * xss.length := by
  induction xss with
  | nil => rfl
  | cons x xss ih =>
    obtain ⟨hx, hxss⟩ := List.forall_mem_cons.1 hfull
    rw [List.flatten_cons, List.length_append, hx, ih hxss, List.length_cons, Nat.mul_succ,
      Nat.add_comm]

theorem drop_flatten {xss : List (List α)} {rest : List α} (hfull : ∀ x ∈ xss, x.length = n)
    (hrest : rest.length < n) : (xss.flatten ++ rest).drop
      (n * ((xss.flatten ++ rest).length / n)) = rest := by
  have hlen := length_flatten hfull
  have hdiv : (xss.flatten ++ rest).length / n = xss.length := by
    rw [List.length_append, hlen, Nat.mul_add_div (by omega), Nat.div_eq_of_lt hrest, Nat.add_zero]
  rw [hdiv, ← hlen, List.drop_left]

end Wasabi
