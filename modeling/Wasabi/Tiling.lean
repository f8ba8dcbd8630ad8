import Mathlib.Data.List.Pairwise
import Mathlib.Order.Interval.Finset.Nat
import Mathlib.Tactic.Ring

namespace Wasabi
set_option autoImplicit true

/-- The half-open intervals `[a, a + m)` and `[b, b + n)` do not meet. -/
def Apart (a m b n : Nat) : Prop := a + m ≤ b ∨ b + n ≤ a

theorem Apart.symm (h : Apart a m b n) : Apart b n a m := Or.symm h

theorem Apart.mono (h : Apart a m b n) (ha : a ≤ a') (ham : a' + m' ≤ a + m)
    (hb : b ≤ b') (hbn : b' + n' ≤ b + n) : Apart a' m' b' n' := by
  unfold Apart at *
  omega

section
variable {α : Type} (start len : α → Nat)

/-- Consecutive blocks filling the interval from `lo` to `hi` without gaps. -/
def Tiles : Nat → Nat → List α → Prop
  | lo, hi, [] => lo = hi
  | lo, hi, x :: xs => start x = lo ∧ Tiles (lo + len x) hi xs

/-- A list that falls into one run of consecutive blocks for every interval, in order. -/
inductive Covers : List (Nat × Nat) → List α → Prop where
  | nil : Covers [] []
  | cons : Tiles start len lo hi xs → Covers rs ys → Covers ((lo, hi) :: rs) (xs ++ ys)

end

section
variable {α : Type} {start len : α → Nat} {xs ys pre post : List α}

theorem tiles_append : Tiles start len lo hi (xs ++ ys) ↔
    ∃ mid, Tiles start len lo mid xs ∧ Tiles start len mid hi ys := by
  induction xs generalizing lo with
  | nil => simp [Tiles]
  | cons x xs ih =>
    simp only [List.cons_append, Tiles, ih]
    exact ⟨fun ⟨hx, mid, h, h'⟩ => ⟨mid, ⟨hx, h⟩, h'⟩, fun ⟨mid, ⟨hx, h⟩, h'⟩ => ⟨hx, mid, h, h'⟩⟩

theorem Tiles.le (h : Tiles start len lo hi xs) : lo ≤ hi := by
  induction xs generalizing lo with
  | nil => exact Nat.le_of_eq h
  | cons x xs ih =>
    have hx := ih h.2
    omega

theorem Tiles.mem_bounds (h : Tiles start len lo hi xs) (hx : x ∈ xs) :
    lo ≤ start x ∧ start x + len x ≤ hi := by
  induction xs generalizing lo with
  | nil => cases hx
  | cons y xs ih =>
    have hle := h.2.le
    cases hx with
    | head => have hs := h.1; omega
    | tail _ hx =>
      have hb := ih h.2 hx
      omega

theorem Tiles.pairwise (h : Tiles start len lo hi xs) :
    xs.Pairwise fun x y => Apart (start x) (len x) (start y) (len y) := by
  induction xs generalizing lo with
  | nil => exact List.Pairwise.nil
  | cons x xs ih =>
    refine List.Pairwise.cons (fun y hy => ?_) (ih h.2)
    have hb := h.2.mem_bounds hy
    have hs := h.1
    left
    omega

theorem Tiles.replace (h : Tiles start len lo hi (pre ++ x :: post))
    (hy : Tiles start len (start x) (start x + len x) ys) :
    Tiles start len lo hi (pre ++ (ys ++ post)) := by
  obtain ⟨mid, hpre, hx, hpost⟩ := tiles_append.1 h
  subst hx
  exact tiles_append.2 ⟨_, hpre, tiles_append.2 ⟨_, hy, hpost⟩⟩

theorem Covers.replace (h : Covers start len rs (pre ++ x :: post))
    (hy : Tiles start len (start x) (start x + len x) ys) :
    Covers start len rs (pre ++ (ys ++ post)) := by
  generalize he : pre ++ x :: post = zs at h
  induction h generalizing pre with
  | nil => simp at he
  | @cons lo hi us rs vs ht hc ih =>
    rcases List.append_eq_append_iff.1 he with ⟨as, hu, hv⟩ | ⟨as, hp, hv⟩
    · cases as with
      | nil =>
        have hcs := @ih [] (by simpa using hv)
        rw [hu, List.append_nil] at ht
        exact .cons ht hcs
      | cons a as =>
        simp only [List.cons_append, List.cons.injEq] at hv
        obtain ⟨rfl, rfl⟩ := hv
        rw [hu] at ht
        have hcs := Covers.cons (ht.replace hy) hc
        simpa only [List.append_assoc] using hcs
    · have hcs := @ih as hv.symm
      rw [hp, List.append_assoc]
      exact .cons ht hcs

theorem Covers.mem_bounds (h : Covers start len rs xs) (hx : x ∈ xs) :
    ∃ r ∈ rs, r.1 ≤ start x ∧ start x + len x ≤ r.2 := by
  induction h with
  | nil => cases hx
  | cons ht hc ih =>
    rcases List.mem_append.1 hx with hx | hx
    · exact ⟨_, List.mem_cons_self, ht.mem_bounds hx⟩
    · obtain ⟨r, hr, hb⟩ := ih hx
      exact ⟨r, List.mem_cons_of_mem _ hr, hb⟩

theorem Covers.pairwise (h : Covers start len rs xs)
    (hd : rs.Pairwise fun r r' => r.2 ≤ r'.1 ∨ r'.2 ≤ r.1) :
    xs.Pairwise fun x y => Apart (start x) (len x) (start y) (len y) := by
  induction h with
  | nil => exact List.Pairwise.nil
  | cons ht hc ih =>
    obtain ⟨hr, hrs⟩ := List.pairwise_cons.1 hd
    refine List.pairwise_append.2 ⟨ht.pairwise, ih hrs, fun x hx y hy => ?_⟩
    obtain ⟨r, hmem, hlo, hhi⟩ := hc.mem_bounds hy
    have hb := ht.mem_bounds hx
    rcases hr r hmem with hlt | hlt
    · left; omega
    · right; omega

end

section
variable {α : Type} {start len : α → Nat} {xs ys zs pre post : List α}

theorem Covers.append (h : Covers start len rs xs) (h' : Covers start len rs' ys) :
    Covers start len (rs ++ rs') (xs ++ ys) := by
  induction h with
  | nil => exact h'
  | cons ht _ ih =>
    rw [List.append_assoc]
    exact .cons ht ih

theorem Covers.split (h : Covers start len (rs ++ rs') zs) :
    ∃ xs ys, zs = xs ++ ys ∧ Covers start len rs xs ∧ Covers start len rs' ys := by
  induction rs generalizing zs with
  | nil => exact ⟨[], zs, rfl, .nil, h⟩
  | cons r rs ih =>
    cases h with
    | cons ht hc =>
      obtain ⟨xs, ys, rfl, hx, hy⟩ := ih hc
      exact ⟨_, ys, (List.append_assoc _ _ _).symm, .cons ht hx, hy⟩

variable (start len) in
/-- The blocks of `ys` cut the blocks of `xs`: one run of them for each, in order. -/
def Cuts (xs ys : List α) : Prop :=
  Covers start len (xs.map fun x => (start x, start x + len x)) ys

namespace Cuts

theorem block (h : Tiles start len (start x) (start x + len x) ys) : Cuts start len [x] ys := by
  have hcuts := Covers.cons h Covers.nil
  rwa [List.append_nil] at hcuts

theorem append (h : Cuts start len xs ys) (h' : Cuts start len pre post) :
    Cuts start len (xs ++ pre) (ys ++ post) := by
  rw [Cuts, List.map_append]
  exact Covers.append h h'

theorem refl (xs : List α) : Cuts start len xs xs := by
  induction xs with
  | nil => exact .nil
  | cons x xs ih =>
    have ht : Tiles start len (start x) (start x + len x) [x] := ⟨rfl, rfl⟩
    exact (block ht).append ih

theorem replace (h : Tiles start len (start x) (start x + len x) ys) (pre post : List α) :
    Cuts start len (pre ++ x :: post) (pre ++ (ys ++ post)) :=
  (refl pre).append ((block h).append (refl post))

theorem tiles (ht : Tiles start len lo hi xs) (h : Cuts start len xs ys) :
    Tiles start len lo hi ys := by
  induction xs generalizing lo ys with
  | nil =>
    cases h
    exact ht
  | cons x xs ih =>
    obtain ⟨rfl, ht⟩ := ht
    cases h with
    | cons hx hc => exact tiles_append.2 ⟨_, hx, ih ht hc⟩

theorem trans (h : Cuts start len xs ys) (h' : Cuts start len ys zs) : Cuts start len xs zs := by
  induction xs generalizing ys zs with
  | nil =>
    cases h
    exact h'
  | cons x xs ih =>
    cases h with
    | cons hx hc =>
      rw [Cuts, List.map_append] at h'
      obtain ⟨us, vs, rfl, hu, hv⟩ := Covers.split h'
      exact .cons (tiles hx hu) (ih hc hv)

theorem nested (h : Cuts start len xs ys) (hy : y ∈ ys) :
    ∃ x ∈ xs, start x ≤ start y ∧ start y + len y ≤ start x + len x := by
  obtain ⟨r, hr, hlo, hhi⟩ := Covers.mem_bounds h hy
  obtain ⟨x, hx, rfl⟩ := List.mem_map.1 hr
  exact ⟨x, hx, hlo, hhi⟩

theorem starts (h : Cuts start len xs ys) (hpos : ∀ x ∈ xs, 0 < len x) (hx : x ∈ xs) :
    ∃ y ∈ ys, start y = start x := by
  induction xs generalizing ys with
  | nil => cases hx
  | cons z xs ih =>
    obtain ⟨hz, hxs⟩ := List.forall_mem_cons.1 hpos
    cases h with
    | @cons _ _ us _ vs ht hc =>
      rcases List.mem_cons.1 hx with rfl | hx
      · cases us with
        | nil =>
          have hempty : start x = start x + len x := ht
          omega
        | cons u us => exact ⟨u, List.mem_append_left _ List.mem_cons_self, ht.1⟩
      · obtain ⟨y, hy, he⟩ := ih hc hxs hx
        exact ⟨y, List.mem_append_right _ hy, he⟩

end Cuts

end

section
variable {α : Type} {start len : α → Nat} {xs : List α}

theorem exists_union_of_apart
    (h : xs.Pairwise fun x y => Apart (start x) (len x) (start y) (len y)) :
    ∃ s : Finset Nat, s.card = (xs.map len).sum ∧
      ∀ a ∈ s, ∃ x ∈ xs, start x ≤ a ∧ a < start x + len x := by
  induction xs with
  | nil => exact ⟨∅, rfl, by simp⟩
  | cons x xs ih =>
    obtain ⟨hx, hxs⟩ := List.pairwise_cons.1 h
    obtain ⟨s, hcard, hs⟩ := ih hxs
    have hdisj : Disjoint (Finset.Ico (start x) (start x + len x)) s := by
      refine Finset.disjoint_left.2 fun a ha has => ?_
      obtain ⟨y, hy, hlo, hhi⟩ := hs a has
      obtain ⟨hxlo, hxhi⟩ := Finset.mem_Ico.1 ha
      rcases hx y hy with hlt | hlt <;> omega
    refine ⟨_, (Finset.card_union_of_disjoint hdisj).trans ?_, fun a ha => ?_⟩
    · rw [Nat.card_Ico, hcard, List.map_cons, List.sum_cons, Nat.add_sub_cancel_left]
    · rcases Finset.mem_union.1 ha with ha | ha
      · exact ⟨x, List.mem_cons_self, Finset.mem_Ico.1 ha⟩
      · obtain ⟨y, hy, hb⟩ := hs a ha
        exact ⟨y, List.mem_cons_of_mem _ hy, hb⟩

variable (start len) in
/-- Intervals that do not meet are together no longer than what they lie in. -/
theorem sum_len_le (h : xs.Pairwise fun x y => Apart (start x) (len x) (start y) (len y))
    (hin : ∀ x ∈ xs, start x + len x ≤ n) : (xs.map len).sum ≤ n := by
  obtain ⟨s, hcard, hs⟩ := exists_union_of_apart h
  have hsub : s ⊆ Finset.range n := by
    intro a ha
    obtain ⟨x, hx, _, hlt⟩ := hs a ha
    have hle := hin x hx
    exact Finset.mem_range.2 (by omega)
  rw [← hcard]
  exact (Finset.card_le_card hsub).trans (Finset.card_range n).le
end

end Wasabi
