import Mathlib.Tactic.Common

namespace Wasabi
set_option autoImplicit true

theorem getElem?_concat_cases {l : List α} (h : (l ++ [a])[k]? = some x) :
    k < l.length ∧ l[k]? = some x ∨ k = l.length ∧ x = a := by
  rcases Nat.lt_trichotomy k l.length with hlt | rfl | hgt
  · rw [List.getElem?_append_left hlt] at h
    exact .inl ⟨hlt, h⟩
  · rw [List.getElem?_concat_length] at h
    exact .inr ⟨rfl, (Option.some.inj h).symm⟩
  · rw [List.getElem?_eq_none] at h
    · cases h
    · rw [List.length_append, List.length_singleton]
      exact hgt

theorem getElem?_concat_of_some {l : List α} {k : Nat} (a : α) (h : l[k]? = some x) :
    (l ++ [a])[k]? = some x := by
  obtain ⟨hlt, _⟩ := List.getElem?_eq_some_iff.1 h
  rw [List.getElem?_append_left hlt, h]

theorem take_map_concat {l : List α} (f : α → β) (a : α) (h : n ≤ l.length) :
    ((l ++ [a]).map f).take n = (l.map f).take n := by
  rw [List.map_append, List.take_append_of_le_length]
  rwa [List.length_map]

/-- The cycle bit that the `j`-th write into a ring of `n` slots leaves behind. -/
def phase (n j : Nat) : Bool := j / n % 2 == 0

/-- The cycle bit in slot `i` after `p` writes into a ring that was cleared at the start. -/
def bitAt (n p i : Nat) : Bool := if i < p % n then phase n p else !phase n p

section
variable {n p q i j : Nat}

theorem phase_zero (n : Nat) : phase n 0 = true := by
  simp [phase]

theorem phase_lap (hi : i < n) : phase n (n * p + i) = (p % 2 == 0) := by
  rw [phase, Nat.mul_add_div (by omega), Nat.div_eq_of_lt hi, Nat.add_zero]

theorem bitAt_zero (n i : Nat) : bitAt n 0 i = false := by
  simp [bitAt, phase]

theorem bitAt_next (n p : Nat) : bitAt n p (p % n) = !phase n p := if_neg (Nat.lt_irrefl _)

theorem phase_succ (h : p / n = q / n + 1) : phase n p = !phase n q := by
  simp only [phase, h]
  rcases Nat.mod_two_eq_zero_or_one (q / n) with hz | ho
  · have hnext : (q / n + 1) % 2 = 1 := by omega
    rw [hz, hnext]
    rfl
  · have hnext : (q / n + 1) % 2 = 0 := by omega
    rw [ho, hnext]
    rfl

theorem bitAt_succ (hn : 0 < n) (hi : i < n) :
    bitAt n (p + 1) i = if i = p % n then phase n p else bitAt n p i := by
  have hp := Nat.mod_lt p hn
  have hdm := Nat.div_add_mod p n
  rcases Nat.lt_or_ge (p % n + 1) n with hlt | hge
  · have hone : 1 < n := by omega
    have hmod : (p + 1) % n = p % n + 1 := by
      rw [Nat.add_mod, Nat.mod_eq_of_lt hone, Nat.mod_eq_of_lt hlt]
    have hphase : phase n (p + 1) = phase n p := by
      simp only [phase]
      rw [Nat.succ_div_of_not_dvd]
      intro hd
      have hz := Nat.mod_eq_zero_of_dvd hd
      omega
    simp only [bitAt, hmod, hphase]
    by_cases hip : i = p % n
    · rw [if_pos hip, if_pos (by omega)]
    · by_cases hlt' : i < p % n
      · rw [if_neg hip, if_pos hlt', if_pos (by omega)]
      · rw [if_neg hip, if_neg hlt', if_neg (by omega)]
  · have hd : n ∣ p + 1 := ⟨p / n + 1, by rw [Nat.mul_add]; omega⟩
    have hphase : phase n (p + 1) = !phase n p := phase_succ (Nat.succ_div_of_dvd hd)
    simp only [bitAt, Nat.mod_eq_zero_of_dvd hd, hphase]
    rw [if_neg (Nat.not_lt_zero i), Bool.not_not]
    by_cases hip : i = p % n
    · rw [if_pos hip]
    · rw [if_neg hip, if_pos (by omega)]

theorem lap_cases (hn : 0 < n) (hq : q ≤ p) (hp : p ≤ q + n) :
    p / n = q / n ∨ p / n = q / n + 1 := by
  have hle : q / n ≤ p / n := Nat.div_le_div_right hq
  have hge : p / n ≤ (q + n) / n := Nat.div_le_div_right hp
  rw [Nat.add_div_right q hn] at hge
  omega

theorem slot_ne (h : j < p) (hp : p < j + n) : j % n ≠ p % n := by
  intro he
  have hj := Nat.div_add_mod j n
  have hpm := Nat.div_add_mod p n
  have hn : 0 < n := by omega
  rcases lap_cases hn (Nat.le_of_lt h) (Nat.le_of_lt hp) with hlap | hlap
  · rw [hlap] at hpm
    omega
  · rw [hlap, Nat.mul_add] at hpm
    omega

/-- A reader who is not more than a lap behind finds its own bit in a slot exactly when the slot
holds an unread entry. -/
theorem bitAt_reader (hn : 0 < n) (hq : q ≤ p) (hp : p ≤ q + n) :
    bitAt n p (q % n) = phase n q ↔ q < p := by
  have hqm := Nat.div_add_mod q n
  have hpm := Nat.div_add_mod p n
  have hqn := Nat.mod_lt q hn
  rcases lap_cases hn hq hp with hlap | hlap
  · have hphase : phase n p = phase n q := by
      simp only [phase, hlap]
    rw [hlap] at hpm
    rw [bitAt, hphase]
    by_cases hlt : q % n < p % n
    · rw [if_pos hlt]
      exact iff_of_true rfl (by omega)
    · rw [if_neg hlt]
      refine iff_of_false ?_ (by omega)
      cases phase n q <;> decide
  · rw [hlap, Nat.mul_add] at hpm
    rw [bitAt, if_neg (by omega), phase_succ hlap, Bool.not_not]
    exact iff_of_true rfl (by omega)

end

end Wasabi
