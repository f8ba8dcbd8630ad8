import Mathlib.Data.List.Basic

namespace Wasabi
set_option autoImplicit true

/-- What the entries that set a value have set last. -/
def lastOf (set? : ι → Option α) (xs : List ι) : Option α := (xs.filterMap set?).getLast?

theorem lastOf_cons (set? : ι → Option α) (x : ι) (xs : List ι) :
    lastOf set? (x :: xs) = (lastOf set? xs).or (set? x) := by
  rw [lastOf, lastOf, List.filterMap_cons]
  cases set? x with
  | none => rw [Option.or_none]
  | some a =>
    rw [List.getLast?_cons]
    cases (xs.filterMap set?).getLast? <;> rfl

theorem lastOf_append (set? : ι → Option α) (xs ys : List ι) :
    lastOf set? (xs ++ ys) = (lastOf set? ys).or (lastOf set? xs) := by
  rw [lastOf, lastOf, lastOf, List.filterMap_append, List.getLast?_append]

theorem lastOf_map (set? : ι → Option α) (f : α → β) (xs : List ι) :
    lastOf (fun c => (set? c).map f) xs = (lastOf set? xs).map f := by
  rw [lastOf, lastOf, ← List.getLast?_map, List.map_filterMap]

theorem lastOf_eq_none (set? : ι → Option α) (xs : List ι) :
    lastOf set? xs = none ↔ ∀ x ∈ xs, set? x = none := by
  rw [lastOf, List.getLast?_eq_none_iff, List.filterMap_eq_nil_iff]

theorem lastOf_eq_some (set? : ι → Option α) (xs : List ι) :
    lastOf set? xs = some a ↔
      ∃ pre x post, xs = pre ++ x :: post ∧ set? x = some a ∧ lastOf set? post = none := by
  constructor
  · intro h
    induction xs with
    | nil => cases h
    | cons x xs ih =>
      rw [lastOf_cons] at h
      cases hxs : lastOf set? xs with
      | none =>
        rw [hxs] at h
        exact ⟨[], x, xs, rfl, h, hxs⟩
      | some b =>
        rw [hxs] at h
        cases h
        obtain ⟨pre, y, post, rfl, hy, hpost⟩ := ih hxs
        exact ⟨x :: pre, y, post, rfl, hy, hpost⟩
  · rintro ⟨pre, x, post, rfl, hx, hpost⟩
    rw [lastOf_append, lastOf_cons, hpost, hx]
    rfl

theorem exists_first (set? : ι → Option α) (xs : List ι) :
    lastOf set? xs = none ∨
      ∃ pre x post a, xs = pre ++ x :: post ∧ lastOf set? pre = none ∧ set? x = some a := by
  induction xs with
  | nil => exact .inl rfl
  | cons x xs ih =>
    cases hx : set? x with
    | some a => exact .inr ⟨[], x, xs, a, rfl, rfl, hx⟩
    | none =>
      rcases ih with hnone | ⟨pre, y, post, a, rfl, hpre, hy⟩
      · left
        rw [lastOf_cons, hnone, hx]
        rfl
      · refine .inr ⟨x :: pre, y, post, a, rfl, ?_, hy⟩
        rw [lastOf_cons, hpre, hx]
        rfl

theorem append_eq_append_cons {xs ys pre post : List ι} (h : xs ++ ys = pre ++ a :: post) :
    (∃ behind, xs = pre ++ a :: behind ∧ post = behind ++ ys) ∨
      ∃ front, pre = xs ++ front ∧ ys = front ++ a :: post := by
  rcases List.append_eq_append_iff.1 h with ⟨front, hpre, hys⟩ | ⟨behind, hxs, hpost⟩
  · exact .inr ⟨front, hpre, hys⟩
  · cases behind with
    | nil =>
      rw [List.append_nil] at hxs
      rw [List.nil_append] at hpost
      exact .inr ⟨[], by rw [hxs, List.append_nil], by rw [List.nil_append, hpost]⟩
    | cons b behind =>
      rw [List.cons_append, List.cons.injEq] at hpost
      obtain ⟨rfl, rfl⟩ := hpost
      exact .inl ⟨behind, hxs, rfl⟩

theorem foldl_lastOf {step : σ → ι → σ} {g : σ → α} {set? : ι → Option α}
    (h : ∀ s c, g (step s c) = (set? c).getD (g s)) (calls : List ι) (s : σ) :
    g (calls.foldl step s) = (lastOf set? calls).getD (g s) := by
  induction calls generalizing s with
  | nil => rfl
  | cons c calls ih =>
    rw [List.foldl_cons, ih, h, lastOf_cons]
    cases lastOf set? calls <;> rfl

theorem foldl_keeps {step : σ → ι → σ} {g : σ → α} (h : ∀ s c, g (step s c) = g s)
    (calls : List ι) (s : σ) : g (calls.foldl step s) = g s := by
  induction calls generalizing s with
  | nil => rfl
  | cons c calls ih => rw [List.foldl_cons, ih, h]

theorem foldl_or {step : σ → ι → σ} {g : σ → Bool} {sets : ι → Bool}
    (h : ∀ s c, g (step s c) = (g s || sets c)) (calls : List ι) (s : σ) :
    g (calls.foldl step s) = (g s || calls.any sets) := by
  induction calls generalizing s with
  | nil => rw [List.foldl_nil, List.any_nil, Bool.or_false]
  | cons c calls ih => rw [List.foldl_cons, ih, h, List.any_cons, Bool.or_assoc]

end Wasabi
