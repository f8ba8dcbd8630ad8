import Wasabi.CycleRing
import Wasabi.Outcome
import Wasabi.Runs
import Wasabi.Trb

namespace Wasabi
set_option autoImplicit true

/-- `erdp` is the register behind the source's pointer, once that is set; `waitList` holds weak
references. -/
structure EventRing where
  ring : TrbRing
  cycleStateOurs : Bool
  erdp : Option (BitVec 64)
  waitList : List Nat

namespace EventRing

def new (base : Nat) (h : base % 4096 = 0) : EventRing := ⟨.new base h, true, none, []⟩

def ringPhysAddr (this : EventRing) : BitVec 64 := BitVec.ofNat 64 this.ring.base

def initIrs (index : Nat) (this : EventRing) : Except Fault EventRing :=
  if index < 1024 then .ok { this with erdp := some this.ringPhysAddr }
  else .error (.err "Index out of range")

def hasNextEvent (this : EventRing) : Except Fault Bool := do
  return (← this.ring.current.cycleState) == this.cycleStateOurs

def advance : EStateM Fault EventRing Unit := do
  let this ← get
  let ring ← MonadExcept.ofExcept (this.ring.advanceIndexNotoggle this.cycleStateOurs)
  set { this with ring := ring }

def writeErdp (eptr : BitVec 64) : EStateM Fault EventRing Unit := do
  let this ← get
  match this.erdp with
  | none => throw .unwrap
  | some erdp => set { this with erdp := some (eptr ||| (erdp &&& 0xf)) }

def pop : EStateM Fault EventRing (Option GenericTrbEntry) := do
  let this ← get
  if !(← MonadExcept.ofExcept this.hasNextEvent) then
    return none
  let e := this.ring.current
  let eptr := BitVec.ofNat 64 this.ring.currentPtr
  advance
  writeErdp eptr
  let this ← get
  if this.ring.currentIndex = 0 then
    set { this with cycleStateOurs := !this.cycleStateOurs }
  return some e

theorem hasNextEvent_eq (this : EventRing) :
    this.hasNextEvent = .ok (this.ring.current.cycle == this.cycleStateOurs) := by
  rw [hasNextEvent, GenericTrbEntry.cycleState_eq, ok_bind]
  rfl

theorem pop_none (this : EventRing) (h : this.ring.current.cycle ≠ this.cycleStateOurs) :
    pop this = .ok none this := by
  rw [pop, get_bind, ofExcept_bind this.hasNextEvent_eq, beq_eq_false_iff_ne.2 h]
  rfl

theorem advance_eq (this : EventRing) (h : this.ring.current.cycle = this.cycleStateOurs) :
    advance this = .ok () { this with
      ring := { this.ring with currentIndex := this.ring.currentIndex + 1 } } := by
  rw [advance, get_bind, ofExcept_bind (TrbRing.advanceIndexNotoggle_eq _ h)]
  rfl

theorem pop_unset (this : EventRing) (h : this.ring.current.cycle = this.cycleStateOurs)
    (herdp : this.erdp = none) : ∃ ring, pop this = .error .unwrap ring := by
  have herdp' : writeErdp (BitVec.ofNat 64 this.ring.currentPtr) { this with
      ring := { this.ring with currentIndex := this.ring.currentIndex + 1 } } =
        .error .unwrap { this with
          ring := { this.ring with currentIndex := this.ring.currentIndex + 1 } } := by
    rw [writeErdp, get_bind]
    simp only [herdp]
    rfl
  rw [pop, get_bind, ofExcept_bind this.hasNextEvent_eq, beq_iff_eq.2 h]
  simp only [Bool.not_true, Bool.false_eq_true, if_false]
  rw [bind_of_ok (this.advance_eq h), bind_of_error herdp']
  exact ⟨_, rfl⟩

theorem pop_some (this : EventRing) (h : this.ring.current.cycle = this.cycleStateOurs)
    (herdp : this.erdp = some r) :
    pop this = .ok (some this.ring.current) { this with
      ring := { this.ring with currentIndex := this.ring.currentIndex + 1 }
      cycleStateOurs :=
        if this.ring.currentIndex + 1 = 0 then !this.cycleStateOurs else this.cycleStateOurs
      erdp := some (BitVec.ofNat 64 this.ring.currentPtr ||| (r &&& 0xf)) } := by
  have herdp' : writeErdp (BitVec.ofNat 64 this.ring.currentPtr) { this with
      ring := { this.ring with currentIndex := this.ring.currentIndex + 1 } } = .ok () { this with
      ring := { this.ring with currentIndex := this.ring.currentIndex + 1 }
      erdp := some (BitVec.ofNat 64 this.ring.currentPtr ||| (r &&& 0xf)) } := by
    rw [writeErdp, get_bind]
    simp only [herdp]
    rfl
  rw [pop, get_bind, ofExcept_bind this.hasNextEvent_eq, beq_iff_eq.2 h]
  simp only [Bool.not_true, Bool.false_eq_true, if_false]
  rw [bind_of_ok (this.advance_eq h), bind_of_ok herdp', get_bind]
  by_cases hz : this.ring.currentIndex + 1 = 0
  · simp only [if_pos hz]
    rfl
  · simp only [if_neg hz]
    rfl

theorem pop_waitList {this ring : EventRing} (h : pop this = .ok r ring) :
    ring.waitList = this.waitList := by
  by_cases hnext : this.ring.current.cycle = this.cycleStateOurs
  · cases herdp : this.erdp with
    | none =>
      obtain ⟨ring', herr⟩ := this.pop_unset hnext herdp
      rw [herr] at h
      cases h
    | some erdp =>
      rw [this.pop_some hnext herdp] at h
      cases h
      rfl
  · rw [this.pop_none hnext] at h
    cases h
    rfl

theorem pop_returns {this : EventRing} (h : this.erdp ≠ none) :
    ∃ r ring, pop this = .ok r ring := by
  obtain ⟨erdp, herdp⟩ := Option.ne_none_iff_exists'.1 h
  by_cases hnext : this.ring.current.cycle = this.cycleStateOurs
  · exact ⟨_, _, this.pop_some hnext herdp⟩
  · exact ⟨_, _, this.pop_none hnext⟩

end EventRing

end Wasabi
