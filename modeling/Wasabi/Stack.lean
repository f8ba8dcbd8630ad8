import Mathlib.Data.BitVec
import Mathlib.Logic.Function.Basic

namespace Wasabi
set_option autoImplicit true

/-- The address of word `i` from `sp` upwards, where a word is eight bytes. -/
def wordAddr (sp : BitVec 64) (i : Nat) : BitVec 64 := sp + BitVec.ofNat 64 (8 * i)

theorem wordAddr_zero (sp : BitVec 64) : wordAddr sp 0 = sp := by
  rw [wordAddr]
  bv_omega

theorem wordAddr_add (sp : BitVec 64) (i j : Nat) :
    wordAddr (wordAddr sp i) j = wordAddr sp (i + j) := by
  simp only [wordAddr]
  bv_omega

theorem wordAddr_sub (sp : BitVec 64) (i : Nat) : wordAddr (sp - 8) (i + 1) = wordAddr sp i := by
  simp only [wordAddr]
  bv_omega

theorem wordAddr_ne (sp : BitVec 64) (h : 8 * (i + 1) < 2 ^ 64) : wordAddr sp i ≠ sp - 8 := by
  simp only [wordAddr]
  bv_omega

def StackAt (m : BitVec 64 → α) (sp : BitVec 64) (vs : List α) : Prop :=
  ∀ (i : Nat) (h : i < vs.length), m (wordAddr sp i) = vs[i]

def blockStore (m : BitVec 64 → α) (p : BitVec 64) (ws : List α) (a : BitVec 64) : α :=
  if h : (a - p).toNat % 8 = 0 ∧ (a - p).toNat / 8 < ws.length then ws.get ⟨(a - p).toNat / 8, h.2⟩
  else m a

namespace StackAt

variable {m : BitVec 64 → α} {sp : BitVec 64} {vs : List α}

theorem nil : StackAt m sp [] := nofun

theorem word (h : StackAt m sp vs) (hv : vs[i]? = some v) : m (wordAddr sp i) = v := by
  obtain ⟨hi, rfl⟩ := List.getElem?_eq_some_iff.1 hv
  exact h i hi

theorem top (h : StackAt m sp (v :: vs)) : m sp = v := by
  have hv := h 0 (Nat.succ_pos _)
  rwa [wordAddr_zero] at hv

theorem tail (h : StackAt m sp (v :: vs)) : StackAt m (sp + 8) vs := by
  intro i hi
  have hv := h (i + 1) (Nat.succ_lt_succ hi)
  have haddr : wordAddr sp (i + 1) = wordAddr (sp + 8) i := by
    simp only [wordAddr]
    bv_omega
  rwa [haddr] at hv

theorem drop (h : StackAt m sp vs) (n : Nat) : StackAt m (wordAddr sp n) (vs.drop n) := by
  intro i hi
  rw [List.length_drop] at hi
  rw [wordAddr_add, h (n + i) (by omega), List.getElem_drop]

theorem extend (h : StackAt m sp vs) : StackAt m (sp - 8) (m (sp - 8) :: vs) := by
  intro i hi
  cases i with
  | zero => rw [wordAddr_zero, List.getElem_cons_zero]
  | succ i => rw [wordAddr_sub, h i (Nat.lt_of_succ_lt_succ hi), List.getElem_cons_succ]

theorem push (h : StackAt m sp vs) (hlen : 8 * (vs.length + 1) < 2 ^ 64) (v : α) :
    StackAt (Function.update m (sp - 8) v) (sp - 8) (v :: vs) := by
  intro i hi
  cases i with
  | zero => rw [wordAddr_zero, Function.update_self, List.getElem_cons_zero]
  | succ i =>
    have hi := Nat.lt_of_succ_lt_succ hi
    rw [wordAddr_sub, Function.update_of_ne (wordAddr_ne sp (by omega)), h i hi,
      List.getElem_cons_succ]

theorem congr {m' : BitVec 64 → α} (h : StackAt m sp vs)
    (hm : ∀ i < vs.length, m' (wordAddr sp i) = m (wordAddr sp i)) : StackAt m' sp vs :=
  fun i hi => (hm i hi).trans (h i hi)

theorem blockStore (h : StackAt m (wordAddr sp n) vs) (hn : ws.length = n)
    (hlen : 8 * (n + vs.length) < 2 ^ 64) : StackAt (blockStore m sp ws) sp (ws ++ vs) := by
  subst hn
  intro i hi
  rw [List.length_append] at hi
  have hd : (wordAddr sp i - sp).toNat = 8 * i := by
    rw [wordAddr]
    bv_omega
  have hdiv : (wordAddr sp i - sp).toNat / 8 = i := by omega
  rw [Wasabi.blockStore]
  by_cases hws : i < ws.length
  · rw [dif_pos ⟨by omega, by omega⟩, List.getElem_append_left hws]
    simp only [List.get_eq_getElem, hdiv]
  · rw [dif_neg (by omega), List.getElem_append_right (by omega), ← h (i - ws.length) (by omega),
      wordAddr_add, Nat.add_sub_cancel' (by omega)]

end StackAt

end Wasabi
