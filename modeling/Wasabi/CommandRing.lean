import Wasabi.Outcome
import Wasabi.Trb

namespace Wasabi
set_option autoImplicit true

structure CommandRing where
  ring : TrbRing
  cycleStateOurs : Bool

namespace CommandRing

def ringPhysAddr (this : CommandRing) : Nat := this.ring.base

def onRing (f : TrbRing → Except Fault TrbRing) : EStateM Fault CommandRing Unit := fun this =>
  match f this.ring with
  | .ok ring => .ok () { this with ring := ring }
  | .error e => .error e this

/-- The first store of `push`: the entry, with the cycle bit that still keeps it from the
controller. -/
def pushWrite (src : GenericTrbEntry) : EStateM Fault CommandRing Nat := do
  let this ← get
  if (← MonadExcept.ofExcept this.ring.current.cycleState) ≠ this.cycleStateOurs then
    throw (.err "Command Ring is Full")
  let src ← MonadExcept.ofExcept (src.setCycleState this.cycleStateOurs)
  onRing (·.writeCurrent src)
  return this.ring.currentPtr

/-- The second store of `push`, which hands the entry over. -/
def pushAdvance : EStateM Fault CommandRing Unit := do
  let this ← get
  onRing (·.advanceIndex (!this.cycleStateOurs))

/-- The last store of `push`, if the index has reached the Link TRB. -/
def pushLink : EStateM Fault CommandRing Unit := do
  let this ← get
  if (← MonadExcept.ofExcept this.ring.current.trbType) = TrbType.link.value then
    onRing (·.advanceIndex (!this.cycleStateOurs))
    modify fun this => { this with cycleStateOurs := !this.cycleStateOurs }

def push (src : GenericTrbEntry) : EStateM Fault CommandRing Nat := do
  let dstPtr ← pushWrite src
  pushAdvance
  pushLink
  return dstPtr

/-- `CommandRing::default`, where the allocator has put the ring at `base`. -/
def default (base : Nat) (h : base % 4096 = 0) : Except Fault CommandRing := do
  let ring := TrbRing.new base h
  let linkTrb ← GenericTrbEntry.trbLink ring.physAddr
  return ⟨← unwrap (ring.write (TrbRing.numTrb - 1) linkTrb), false⟩

theorem onRing_eq (this : CommandRing) (h : f this.ring = .ok r) :
    onRing f this = .ok () { this with ring := r } := by
  rw [onRing, h]

theorem pushWrite_eq (this : CommandRing) (src : GenericTrbEntry)
    (h : this.ring.current.cycle = this.cycleStateOurs) :
    pushWrite src this = .ok this.ring.currentPtr { this with ring := { this.ring with
      trb := Function.update this.ring.trb this.ring.currentIndex
        (src.withCycle this.cycleStateOurs) } } := by
  have hsrc := GenericTrbEntry.setCycleState_eq src this.cycleStateOurs
  rw [pushWrite, get_bind, ofExcept_bind (GenericTrbEntry.cycleState_eq _), if_neg (not_not.2 h)]
  exact (ofExcept_bind hsrc).trans (bind_of_ok (onRing_eq this (TrbRing.writeCurrent_eq _ _)))

theorem handOver_eq (this : CommandRing) (h : this.ring.current.cycle = this.cycleStateOurs) :
    onRing (·.advanceIndex (!this.cycleStateOurs)) this = .ok () { this with
      ring := { this.ring with
      trb := Function.update this.ring.trb this.ring.currentIndex
        (this.ring.current.withCycle (!this.cycleStateOurs))
      currentIndex := this.ring.currentIndex + 1 } } := by
  have hne : this.ring.current.cycle ≠ !this.cycleStateOurs := by
    rw [h]
    cases this.cycleStateOurs <;> decide
  exact onRing_eq this (TrbRing.advanceIndex_eq _ hne)

theorem pushAdvance_eq (this : CommandRing) (h : this.ring.current.cycle = this.cycleStateOurs) :
    pushAdvance this = .ok () { this with ring := { this.ring with
      trb := Function.update this.ring.trb this.ring.currentIndex
        (this.ring.current.withCycle (!this.cycleStateOurs))
      currentIndex := this.ring.currentIndex + 1 } } := by
  rw [pushAdvance, get_bind]
  exact handOver_eq this h

theorem pushLink_of_ne (this : CommandRing) (h : this.ring.current.kind ≠ TrbType.link.value) :
    pushLink this = .ok () this := by
  rw [pushLink, get_bind, ofExcept_bind (GenericTrbEntry.trbType_eq _), if_neg h]
  rfl

theorem pushLink_of_eq (this : CommandRing) (h : this.ring.current.kind = TrbType.link.value)
    (hc : this.ring.current.cycle = this.cycleStateOurs) :
    pushLink this = .ok () ⟨{ this.ring with
      trb := Function.update this.ring.trb this.ring.currentIndex
        (this.ring.current.withCycle (!this.cycleStateOurs))
      currentIndex := this.ring.currentIndex + 1 }, !this.cycleStateOurs⟩ := by
  rw [pushLink, get_bind, ofExcept_bind (GenericTrbEntry.trbType_eq _), if_pos h]
  exact bind_of_ok (handOver_eq this hc)

def fresh (base : Nat) (h : base % 4096 = 0) : CommandRing :=
  ⟨⟨base, h, Function.update (fun _ => .default) 15 ⟨BitVec.ofNat 64 base, 0, 0x1802⟩, 0⟩, false⟩

theorem default_eq (base : Nat) (h : base % 4096 = 0) : default base h = .ok (fresh base h) := by
  rw [default, GenericTrbEntry.trbLink_eq, ok_bind]
  rfl

theorem onRing_base {f : TrbRing → Except Fault TrbRing} (this : CommandRing)
    (h : ∀ r r', f r = .ok r' → r'.base = r.base) :
    Ends (onRing f) this (fun _ after => after.ring.base = this.ring.base) fun _ _ => True := by
  rw [Ends, onRing]
  cases hf : f this.ring with
  | ok r => exact h _ _ hf
  | error e => trivial

theorem writeCurrent_base (r r' : TrbRing) (h : r.writeCurrent trb = .ok r') :
    r'.base = r.base := by
  rw [TrbRing.writeCurrent_eq] at h
  cases h
  rfl

theorem advanceIndex_base (r r' : TrbRing) (h : r.advanceIndex newCycle = .ok r') :
    r'.base = r.base := by
  by_cases hc : r.current.cycle = newCycle
  · rw [TrbRing.advanceIndex, GenericTrbEntry.cycleState_eq, ok_bind, if_pos hc] at h
    cases h
  · rw [TrbRing.advanceIndex_eq _ hc] at h
    cases h
    rfl

theorem pushWrite_ptr (src : GenericTrbEntry) (this : CommandRing) :
    Ends (pushWrite src) this (fun ptr after => ptr = this.ring.currentPtr ∧
      after.ring.base = this.ring.base) fun _ _ => True := by
  apply Ends.bind
  apply Ends.get
  apply Ends.bind
  apply Ends.ofExcept (GenericTrbEntry.cycleState_eq _)
  split
  · exact Ends.throw trivial
  · apply Ends.bind
    apply Ends.ofExcept (GenericTrbEntry.setCycleState_eq _ _)
    apply Ends.seq (onRing_base this writeCurrent_base)
    intro _ after h
    exact Ends.pure ⟨rfl, h⟩

theorem pushAdvance_base (this : CommandRing) :
    Ends pushAdvance this (fun _ after => after.ring.base = this.ring.base) fun _ _ => True := by
  apply Ends.bind
  apply Ends.get
  exact onRing_base this advanceIndex_base

theorem pushLink_base (this : CommandRing) :
    Ends pushLink this (fun _ after => after.ring.base = this.ring.base) fun _ _ => True := by
  apply Ends.bind
  apply Ends.get
  apply Ends.bind
  apply Ends.ofExcept (GenericTrbEntry.trbType_eq _)
  split
  · apply Ends.seq (onRing_base this advanceIndex_base)
    intro _ after h
    exact Ends.modify h
  · exact Ends.pure rfl

theorem push_ptr (h : push src this = .ok ptr after) :
    ptr = this.ring.currentPtr ∧ after.ring.base = this.ring.base := by
  have hends : Ends (push src) this (fun ptr after => ptr = this.ring.currentPtr ∧
      after.ring.base = this.ring.base) fun _ _ => True := by
    apply Ends.seq (pushWrite_ptr src this)
    rintro _ s₁ ⟨rfl, h₁⟩
    apply Ends.seq (pushAdvance_base s₁)
    intro _ s₂ h₂
    apply Ends.seq (pushLink_base s₂)
    intro _ s₃ h₃
    exact Ends.pure ⟨rfl, h₃.trans (h₂.trans h₁)⟩
  exact hends.of_ok h

end CommandRing

end Wasabi
