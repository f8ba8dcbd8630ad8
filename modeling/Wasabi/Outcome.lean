namespace Wasabi
set_option autoImplicit true

/-- Every way a computation can end from a state: with a value and a state that satisfy `post`, or
with an error and the state at that point that satisfy `fails`. -/
def Ends (x : EStateM ε σ α) (s : σ) (post : α → σ → Prop) (fails : ε → σ → Prop) : Prop :=
  match x s with
  | .ok a s => post a s
  | .error e s => fails e s

namespace Ends

variable {x : EStateM ε σ α} {s : σ} {post : α → σ → Prop} {fails : ε → σ → Prop}

theorem of_ok (h : Ends x s post fails) (hx : x s = .ok a s') : post a s' := by
  rwa [Ends, hx] at h

theorem of_error (h : Ends x s post fails) (hx : x s = .error e s') : fails e s' := by
  rwa [Ends, hx] at h

theorem pure (h : post a s) : Ends (pure a : EStateM ε σ α) s post fails := h

theorem throw (h : fails e s) : Ends (throw e : EStateM ε σ α) s post fails := h

theorem get {post : σ → σ → Prop} (h : post s s) :
    Ends (get : EStateM ε σ σ) s post fails := h

theorem set {post : PUnit → σ → Prop} (h : post ⟨⟩ s') :
    Ends (set s' : EStateM ε σ PUnit) s post fails := h

theorem modify {post : PUnit → σ → Prop} {f : σ → σ} (h : post ⟨⟩ (f s)) :
    Ends (modify f : EStateM ε σ PUnit) s post fails := h

theorem bind {f : α → EStateM ε σ β} {post : β → σ → Prop}
    (h : Ends x s (fun a s => Ends (f a) s post fails) fails) : Ends (x >>= f) s post fails := by
  change match EStateM.bind x f s with
    | .ok a s => post a s
    | .error e s => fails e s
  rw [EStateM.bind]
  cases hx : x s with
  | ok a s' => exact h.of_ok hx
  | error e s' => exact h.of_error hx

theorem mono {post' : α → σ → Prop} {fails' : ε → σ → Prop} (h : Ends x s post fails)
    (hpost : ∀ a s, post a s → post' a s) (hfails : ∀ e s, fails e s → fails' e s) :
    Ends x s post' fails' := by
  rw [Ends]
  cases hx : x s with
  | ok a s' => exact hpost a s' (h.of_ok hx)
  | error e s' => exact hfails e s' (h.of_error hx)

theorem seq {f : α → EStateM ε σ β} {mid : α → σ → Prop} {post : β → σ → Prop}
    (h : Ends x s mid fails) (hf : ∀ a s, mid a s → Ends (f a) s post fails) :
    Ends (x >>= f) s post fails :=
  bind (h.mono hf fun _ _ he => he)

theorem ofExcept {r : Except ε α} (hr : r = .ok a) (h : post a s) :
    Ends (MonadExcept.ofExcept r : EStateM ε σ α) s post fails := by
  subst hr
  exact h

theorem ofExcept_cases {r : Except ε α} (hok : ∀ a, r = .ok a → post a s)
    (herr : ∀ e, r = .error e → fails e s) :
    Ends (MonadExcept.ofExcept r : EStateM ε σ α) s post fails := by
  cases r with
  | ok a => exact hok a rfl
  | error e => exact herr e rfl

theorem map {f : α → β} {post : β → σ → Prop} (h : Ends x s (fun a => post (f a)) fails) :
    Ends (f <$> x) s post fails := by
  change match EStateM.map f x s with
    | .ok b s => post b s
    | .error e s => fails e s
  delta EStateM.map
  cases hx : x s with
  | ok a s' => exact h.of_ok hx
  | error e s' => exact h.of_error hx

theorem tryCatch {handler : ε → EStateM ε σ α}
    (h : Ends x s post fun e s => Ends (handler e) s post fails) :
    Ends (tryCatch x handler) s post fails := by
  change match EStateM.tryCatch x handler s with
    | .ok a s => post a s
    | .error e s => fails e s
  delta EStateM.tryCatch
  cases hx : x s with
  | ok a s' => exact h.of_ok hx
  | error e s' => exact h.of_error hx

theorem returns (h : Ends x s post fails) (hf : ∀ e s, ¬fails e s) :
    ∃ a s', x s = .ok a s' ∧ post a s' := by
  cases hx : x s with
  | ok a s' => exact ⟨a, s', rfl, h.of_ok hx⟩
  | error e s' => exact absurd (h.of_error hx) (hf e s')

end Ends

theorem bind_of_ok {x : EStateM ε σ α} {f : α → EStateM ε σ β} {s : σ} (h : x s = .ok a s') :
    (x >>= f) s = f a s' := by
  change EStateM.bind x f s = f a s'
  rw [EStateM.bind, h]

theorem bind_of_error {x : EStateM ε σ α} {f : α → EStateM ε σ β} {s : σ}
    (h : x s = .error e s') : (x >>= f) s = .error e s' := by
  change EStateM.bind x f s = .error e s'
  rw [EStateM.bind, h]

theorem get_bind (s : σ) (f : σ → EStateM ε σ β) : ((get : EStateM ε σ σ) >>= f) s = f s s := rfl

theorem ofExcept_bind {r : Except ε α} {f : α → EStateM ε σ β} {s : σ} (h : r = .ok a) :
    ((MonadExcept.ofExcept r : EStateM ε σ α) >>= f) s = f a s := by
  rw [h]
  rfl

/-- The state that a computation leaves behind, whether it returns or fails. -/
def endState (x : EStateM ε σ α) (s : σ) : σ :=
  match x s with
  | .ok _ s => s
  | .error _ s => s

theorem endState_bind {x : EStateM ε σ α} {f : α → EStateM ε σ β} {s : σ} (h : x s = .ok a s') :
    endState (x >>= f) s = endState (f a) s' := by
  rw [endState, bind_of_ok h, endState]

theorem endState_ofExcept_bind {r : Except ε α} {f : α → EStateM ε σ β} {s : σ}
    (h : ∀ a, endState (f a) s = s) : endState (MonadExcept.ofExcept r >>= f) s = s := by
  cases r with
  | ok a => exact h a
  | error e => rfl

theorem Ends.endState {x : EStateM ε σ α} {s : σ} {inv : σ → Prop}
    (h : Ends x s (fun _ => inv) fun _ => inv) : inv (endState x s) := by
  rw [Wasabi.endState]
  cases hx : x s with
  | ok a s' => exact h.of_ok hx
  | error e s' => exact h.of_error hx

/-- A loop around `body`, which says whether to go round again; `stuck` is the outcome when the
fuel does not suffice. -/
def loopFrom (stuck : ε) (body : β → EStateM ε σ (β ⊕ γ)) : Nat → β → EStateM ε σ γ
  | 0, _ => throw stuck
  | fuel + 1, b => do
    match ← body b with
    | .inl b => loopFrom stuck body fuel b
    | .inr c => return c

/-- Partial correctness of a loop by an invariant, termination by a measure below the fuel. -/
theorem Ends.loopFrom {body : β → EStateM ε σ (β ⊕ γ)} {post : γ → σ → Prop}
    {fails : ε → σ → Prop} (inv : β → σ → Prop) (measure : β → Nat)
    (hbody : ∀ b s, inv b s → Ends (body b) s (fun r s => match r with
      | .inl b' => inv b' s ∧ measure b' < measure b
      | .inr c => post c s) fails)
    (h : inv b s) (hfuel : measure b < fuel) : Ends (loopFrom stuck body fuel b) s post fails := by
  induction fuel generalizing b s with
  | zero => exact absurd hfuel (Nat.not_lt_zero _)
  | succ fuel ih =>
    refine Ends.bind ((hbody b s h).mono (fun r s hr => ?_) fun _ _ he => he)
    cases r with
    | inl b' => exact ih hr.1 (by omega)
    | inr c => exact hr

theorem Ends.loopFrom_inv {body : β → EStateM ε σ (β ⊕ γ)} {post : γ → σ → Prop}
    {fails : ε → σ → Prop} (inv : σ → Prop)
    (hbody : ∀ b s, inv s → Ends (body b) s (fun r s => inv s ∧ ∀ c, r = .inr c → post c s) fails)
    (hstuck : ∀ s, inv s → fails stuck s) (h : inv s) :
    Ends (Wasabi.loopFrom stuck body fuel b) s post fails := by
  induction fuel generalizing b s with
  | zero => exact Ends.throw (hstuck s h)
  | succ fuel ih =>
    refine Ends.bind ((hbody b s h).mono (fun r s hr => ?_) fun _ _ he => he)
    cases r with
    | inl b' => exact ih hr.1
    | inr c => exact hr.2 c rfl

def Keeps (inv : σ → Prop) (x : EStateM ε σ α) : Prop :=
  ∀ s, inv s → Ends x s (fun _ => inv) fun _ => inv

namespace Keeps

variable {inv : σ → Prop} {x : EStateM ε σ α}

theorem pure (a : α) : Keeps inv (pure a : EStateM ε σ α) := fun _ h => Ends.pure h

theorem throw (e : ε) : Keeps inv (throw e : EStateM ε σ α) := fun _ h => Ends.throw h

theorem modify {f : σ → σ} (hf : ∀ s, inv s → inv (f s)) :
    Keeps inv (modify f : EStateM ε σ PUnit) := fun s h => Ends.modify (hf s h)

theorem ofExcept (r : Except ε α) : Keeps inv (MonadExcept.ofExcept r : EStateM ε σ α) :=
  fun _ h => Ends.ofExcept_cases (fun _ _ => h) fun _ _ => h

theorem bind {f : α → EStateM ε σ β} (hx : Keeps inv x) (hf : ∀ a, Keeps inv (f a)) :
    Keeps inv (x >>= f) := fun s h => (hx s h).seq fun a s hs => hf a s hs

theorem seq {f : α → EStateM ε σ β} {post : β → σ → Prop} {fails : ε → σ → Prop}
    (hx : Keeps inv x) (h : inv s) (hfails : ∀ e s, inv s → fails e s)
    (hf : ∀ a s, inv s → Ends (f a) s post fails) : Ends (x >>= f) s post fails :=
  Ends.seq ((hx s h).mono (fun _ _ hs => hs) hfails) hf

theorem loopFrom {body : β → EStateM ε σ (β ⊕ γ)} (hbody : ∀ b, Keeps inv (body b)) (fuel : Nat)
    (b : β) : Keeps inv (loopFrom stuck body fuel b) := by
  intro s h
  refine Ends.loopFrom_inv inv (fun b s hs => ?_) (fun _ hs => hs) h
  exact (hbody b s hs).mono (fun _ _ h => ⟨h, fun _ _ => h⟩) fun _ _ h => h

end Keeps

end Wasabi
