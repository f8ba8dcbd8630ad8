import Mathlib.Logic.Relation

namespace Wasabi
set_option autoImplicit true

section
variable {σ : Type} {step : σ → σ → Prop}

/-- Any number of steps of a transition system. -/
abbrev Runs (step : σ → σ → Prop) : σ → σ → Prop := Relation.ReflTransGen step

theorem Runs.invariant (inv : σ → Prop) (hstep : ∀ s t, inv s → step s t → inv t)
    (h : Runs step s t) (hs : inv s) : inv t := by
  induction h with
  | refl => exact hs
  | tail _ hst ih => exact hstep _ _ ih hst

end

end Wasabi
