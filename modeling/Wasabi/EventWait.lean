import Wasabi.EventDelivery
import Mathlib.Data.List.Induction
import Mathlib.Data.List.Nodup

namespace Wasabi
set_option autoImplicit true

structure EventWaitCond where
  trbType : Option TrbType
  trbAddr : Option (BitVec 64)
  slot : Option (BitVec 8)
  deriving DecidableEq, Repr

structure EventWaitInfo where
  cond : EventWaitCond
  trbs : List GenericTrbEntry
  deriving DecidableEq, Repr

def EventWaitInfo.matchesTrb (this : EventWaitInfo) (trb : GenericTrbEntry) :
    Except Fault Bool := do
  if let some trbType := this.cond.trbType then
    if (← trb.trbType) ≠ trbType.value then
      return false
  if let some slot := this.cond.slot then
    if (← trb.slotId) ≠ slot then
      return false
  if let some trbAddr := this.cond.trbAddr then
    if trb.data ≠ trbAddr then
      return false
  return true

def EventWaitInfo.resolve (this : EventWaitInfo) (trb : GenericTrbEntry) : EventWaitInfo :=
  { this with trbs := this.trbs ++ [trb] }

/-- The event ring with its waiters, which `Weak` references name by number; `none` is a waiter
that nobody holds. -/
structure EventTask where
  events : EventRing
  waiters : Nat → Option EventWaitInfo

namespace EventFuture

/-- `EventFuture::new`, where `id` names the new waiter. -/
def new (cond : EventWaitCond) (id : Nat) (this : EventTask) : EventTask where
  events := { this.events with waitList := this.events.waitList ++ [id] }
  waiters := Function.update this.waiters id (some ⟨cond, []⟩)

def newForTrb (trbAddr : BitVec 64) (id : Nat) (this : EventTask) : EventTask :=
  new ⟨none, some trbAddr, none⟩ id this

/-- `EventFuture::poll`: the value if it is ready, and what is left of the waiter. -/
def poll (waitOn : EventWaitInfo) : Option GenericTrbEntry × EventWaitInfo :=
  match waitOn.trbs with
  | [] => (none, waitOn)
  | trb :: trbs => (some trb, { waitOn with trbs := trbs })

end EventFuture

namespace EventTask

def onEvents (x : EStateM Fault EventRing α) : EStateM Fault EventTask α := fun this =>
  match x this.events with
  | .ok a events => .ok a { this with events := events }
  | .error e events => .error e { this with events := events }

def resolveMatching (e : GenericTrbEntry) : List Nat → EStateM Fault EventTask Unit
  | [] => return ()
  | id :: ids => do
    let this ← get
    if let some w := this.waiters id then
      if ← MonadExcept.ofExcept (w.matchesTrb e) then
        set { this with waiters := Function.update this.waiters id (some (w.resolve e)) }
    resolveMatching e ids

/-- The indices that the source collects, the last one first. -/
def staleWaiterIndices (this : EventTask) : List Nat :=
  this.events.waitList.zipIdx.reverse.filterMap fun x =>
    if this.waiters x.1 = none then some x.2 else none

def cleanup (this : EventTask) : EventTask :=
  { this with events := { this.events with
      waitList := this.staleWaiterIndices.foldl List.eraseIdx this.events.waitList } }

/-- `EventRing::poll`. -/
def poll : EStateM Fault EventTask Unit := do
  match ← onEvents EventRing.pop with
  | none => return ()
  | some e =>
    resolveMatching e (← get).events.waitList
    modify cleanup

end EventTask

def forTrb (addr : BitVec 64) : EventWaitCond := ⟨none, some addr, none⟩

theorem EventFuture.newForTrb_waiters {id : Nat} {this : EventTask}
    (h : (newForTrb addr id this).waiters id' = some w) :
    id' = id ∧ w = ⟨forTrb addr, []⟩ ∨ this.waiters id' = some w := by
  by_cases hid : id' = id
  · subst hid
    simp only [newForTrb, new, Function.update_self, Option.some.injEq] at h
    exact .inl ⟨rfl, h.symm⟩
  · simp only [newForTrb, new, Function.update_of_ne hid] at h
    exact .inr h

/-- Removing the indices of the elements without `p`, the last one first, leaves those with `p`. -/
theorem foldl_eraseIdx (p : α → Bool) (l rest : List α) :
    (l.zipIdx.reverse.filterMap fun x => if p x.1 = false then some x.2 else none).foldl
      List.eraseIdx (l ++ rest) = l.filter p ++ rest := by
  induction l using List.reverseRecOn generalizing rest with
  | nil => rfl
  | append_singleton l a ih =>
    rw [List.zipIdx_append, List.reverse_append, List.filterMap_append, List.foldl_append,
      List.filter_append]
    cases hp : p a with
    | true => simpa [hp] using ih (a :: rest)
    | false => simpa [hp, List.eraseIdx_append_of_length_le] using ih rest

namespace EventWaitInfo

def accepts (this : EventWaitInfo) (trb : GenericTrbEntry) : Bool :=
  this.cond.trbType.all (fun ty => trb.kind == ty.value) &&
    this.cond.slot.all (fun slot => trb.control.extractLsb' 24 8 == slot) &&
    this.cond.trbAddr.all (fun trbAddr => trb.data == trbAddr)

theorem matchesTrb_eq (this : EventWaitInfo) (trb : GenericTrbEntry) :
    this.matchesTrb trb = .ok (this.accepts trb) := by
  obtain ⟨⟨ty, trbAddr, slot⟩, trbs⟩ := this
  have hok : ∀ b : Bool, (pure b : Except Fault Bool) = .ok b := fun _ => rfl
  cases ty <;> cases slot <;> cases trbAddr <;>
    simp only [matchesTrb, accepts, GenericTrbEntry.trbType_eq, GenericTrbEntry.slotId_eq, ok_bind,
      hok, Option.all_none, Option.all_some, Bool.true_and, Bool.and_true] <;>
    grind

def pushed (this : EventWaitInfo) (trb : GenericTrbEntry) (n : Nat) : EventWaitInfo :=
  { this with trbs := this.trbs ++ List.replicate n trb }

@[simp] theorem pushed_zero (this : EventWaitInfo) (trb : GenericTrbEntry) :
    this.pushed trb 0 = this := by
  rw [pushed, List.replicate_zero, List.append_nil]

theorem resolve_pushed (this : EventWaitInfo) (trb : GenericTrbEntry) (n : Nat) :
    (this.resolve trb).pushed trb n = this.pushed trb (n + 1) := by
  simp only [resolve, pushed, List.replicate_succ, List.append_assoc, List.singleton_append]

end EventWaitInfo

namespace EventTask

theorem resolveMatching_eq (e : GenericTrbEntry) (ids : List Nat) (this : EventTask) :
    resolveMatching e ids this = .ok () ⟨this.events, fun id =>
      (this.waiters id).map fun w => if w.accepts e then w.pushed e (ids.count id) else w⟩ := by
  induction ids generalizing this with
  | nil =>
    simp only [List.count_nil, EventWaitInfo.pushed_zero, ite_self, Option.map_id']
    rfl
  | cons id ids ih =>
    have hother : ∀ id', id' ≠ id → List.count id' (id :: ids) = List.count id' ids := by
      intro id' hid
      exact List.count_cons_of_ne (Ne.symm hid)
    rw [resolveMatching, get_bind]
    cases hw : this.waiters id with
    | none =>
      apply (ih this).trans
      congr 2
      funext id'
      by_cases hid : id' = id
      · subst hid
        rw [hw]
        rfl
      · rw [hother id' hid]
    | some w =>
      simp only
      rw [ofExcept_bind (w.matchesTrb_eq e)]
      cases haccepts : w.accepts e with
      | false =>
        apply (ih this).trans
        congr 2
        funext id'
        by_cases hid : id' = id
        · subst hid
          rw [hw, Option.map_some, Option.map_some, haccepts]
          rfl
        · rw [hother id' hid]
      | true =>
        apply (ih _).trans
        congr 2
        funext id'
        by_cases hid : id' = id
        · subst hid
          have haccepts' : (w.resolve e).accepts e = true := haccepts
          simp only [Function.update_self, hw, Option.map_some, haccepts', haccepts, if_true,
            List.count_cons_self, w.resolve_pushed]
        · simp only [Function.update_of_ne hid, hother id' hid]

theorem cleanup_eq (this : EventTask) :
    this.cleanup = ⟨{ this.events with
      waitList := this.events.waitList.filter fun id => (this.waiters id).isSome },
      this.waiters⟩ := by
  have herase := foldl_eraseIdx (fun id => (this.waiters id).isSome) this.events.waitList []
  simp only [List.append_nil, Option.isSome_eq_false_iff, Option.isNone_iff_eq_none] at herase
  rw [cleanup, staleWaiterIndices, herase]

theorem onEvents_ok {x : EStateM Fault EventRing α} {this : EventTask}
    (h : x this.events = .ok a ring) :
    onEvents x this = .ok a { this with events := ring } := by
  rw [onEvents, h]

theorem poll_none (this : EventTask) (h : EventRing.pop this.events = .ok none ring) :
    poll this = .ok () { this with events := ring } := by
  rw [poll, bind_of_ok (onEvents_ok h)]
  rfl

theorem poll_some (this : EventTask) (h : EventRing.pop this.events = .ok (some e) ring) :
    poll this = .ok () ⟨{ ring with
      waitList := ring.waitList.filter fun id => (this.waiters id).isSome }, fun id =>
      (this.waiters id).map fun w =>
        if w.accepts e then w.pushed e (ring.waitList.count id) else w⟩ := by
  rw [poll, bind_of_ok (onEvents_ok h)]
  simp only
  rw [get_bind, bind_of_ok (resolveMatching_eq e _ _)]
  refine congrArg (EStateM.Result.ok ()) ((cleanup_eq _).trans ?_)
  simp only [Option.isSome_map]

/-- The event `e` has reached the waiters that it is for, and nobody else. -/
structure Dispatched (e : GenericTrbEntry) (this this' : EventTask) : Prop where
  reached : ∀ id ∈ this.events.waitList, ∀ w, this.waiters id = some w → w.accepts e = true →
    this'.waiters id = some (w.resolve e)
  others : ∀ id, (∀ w, this.waiters id = some w →
    id ∈ this.events.waitList → w.accepts e = false) → this'.waiters id = this.waiters id
  waitList : this'.events.waitList =
    this.events.waitList.filter fun id => (this.waiters id).isSome

theorem Dispatched.of_poll (this : EventTask) (hnodup : this.events.waitList.Nodup)
    {ring : EventRing} (hring : ring.waitList = this.events.waitList) :
    Dispatched e this ⟨{ ring with
      waitList := ring.waitList.filter fun id => (this.waiters id).isSome }, fun id =>
      (this.waiters id).map fun w =>
        if w.accepts e then w.pushed e (ring.waitList.count id) else w⟩ := by
  constructor
  case reached =>
    intro id hid w hw haccepts
    have hcount : this.events.waitList.count id = 1 := List.count_eq_one_of_mem hnodup hid
    simp only [hw, Option.map_some, haccepts, if_true, hring, hcount]
    rfl
  case others =>
    intro id hother
    cases hw : this.waiters id with
    | none => simp only [hw, Option.map_none]
    | some w =>
      by_cases hid : id ∈ this.events.waitList
      · simp only [hw, Option.map_some, hother w hw hid, Bool.false_eq_true, if_false]
      · have hcount : this.events.waitList.count id = 0 := List.count_eq_zero_of_not_mem hid
        simp only [hw, Option.map_some, hring, hcount, w.pushed_zero, ite_self]
  case waitList => rw [hring]

/-- One call of `poll` takes an event to the waiters that accept it and clears the wait list of
dropped waiters, or finds no event and leaves waiters and wait list alone. -/
theorem poll_dispatches (this : EventTask) (hnodup : this.events.waitList.Nodup)
    (herdp : this.events.erdp ≠ none) :
    ∃ r ring this', EventRing.pop this.events = .ok r ring ∧ poll this = .ok () this' ∧
      (r = none → this'.waiters = this.waiters ∧
        this'.events.waitList = this.events.waitList) ∧
      ∀ e, r = some e → Dispatched e this this' := by
  obtain ⟨r, ring, hpop⟩ := EventRing.pop_returns herdp
  have hring := EventRing.pop_waitList hpop
  cases r with
  | none =>
    exact ⟨none, ring, _, hpop, this.poll_none hpop, fun _ => ⟨rfl, hring⟩,
      fun e he => absurd he (Option.some_ne_none e).symm⟩
  | some e =>
    refine ⟨some e, ring, _, hpop, this.poll_some hpop, fun he => absurd he (Option.some_ne_none e),
      fun e' he => ?_⟩
    obtain rfl := Option.some.inj he
    exact .of_poll this hnodup hring

def staleTask : EventTask where
  events := { EventRing.new 4096 rfl with
    cycleStateOurs := false, erdp := some 4096, waitList := [3, 1, 2] }
  waiters id := if id = 1 then none else some ⟨forTrb 0, []⟩

theorem poll_dispatches_stale :
    ∃ r ring this', EventRing.pop staleTask.events = .ok r ring ∧
      poll staleTask = .ok () this' ∧
      (r = none → this'.waiters = staleTask.waiters ∧
        this'.events.waitList = staleTask.events.waitList) ∧
      ∀ e, r = some e → Dispatched e staleTask this' :=
  poll_dispatches staleTask (by decide) (Option.some_ne_none _)

/-- What happens to the waiters: a new one is registered under a name that is not in use, a task
takes an event from its queue or drops its waiter, and events come in and are dispatched. -/
inductive Step : EventTask → EventTask → Prop where
  | register {cond : EventWaitCond} {id : Nat} : id ∉ this.events.waitList →
      Step this (EventFuture.new cond id this)
  | ready {id : Nat} : this.waiters id = some w → EventFuture.poll w = (r, w') →
      Step this { this with waiters := Function.update this.waiters id (some w') }
  | drop {id : Nat} : Step this { this with waiters := Function.update this.waiters id none }
  | arrive {events : EventRing} : events.waitList = this.events.waitList →
      Step this { this with events := events }
  | poll : EventTask.poll this = .ok () this' → Step this this'

theorem waitList_nodup (hrun : Runs Step ⟨.new base hb, fun _ => none⟩ this) :
    this.events.waitList.Nodup := by
  refine hrun.invariant (fun this => this.events.waitList.Nodup) (fun this this' h hstep => ?_)
    List.nodup_nil
  cases hstep with
  | register hid =>
    exact List.nodup_append.2 ⟨h, List.nodup_singleton _, fun a ha b hb hab => by
      rw [List.mem_singleton.1 hb] at hab
      exact hid (hab ▸ ha)⟩
  | ready _ _ => exact h
  | drop => exact h
  | arrive hsame => exact hsame ▸ h
  | poll hpoll =>
    cases hpop : EventRing.pop this.events with
    | error e ring =>
      have herr : onEvents EventRing.pop this = .error e { this with events := ring } := by
        rw [onEvents, hpop]
      rw [EventTask.poll, bind_of_error herr] at hpoll
      cases hpoll
    | ok r ring =>
      have hring := EventRing.pop_waitList hpop
      cases r with
      | none =>
        rw [this.poll_none hpop] at hpoll
        cases hpoll
        exact hring ▸ h
      | some e =>
        rw [this.poll_some hpop] at hpoll
        cases hpoll
        exact (hring ▸ h).filter _

/-- An event that comes in at any time reaches the waiters that it is for, and nobody else. -/
theorem runs_dispatch (hrun : Runs Step ⟨.new base hb, fun _ => none⟩ this)
    (hpop : EventRing.pop this.events = .ok (some e) ring) :
    ∃ this', EventTask.poll this = .ok () this' ∧ Dispatched e this this' :=
  ⟨_, this.poll_some hpop, .of_poll this (waitList_nodup hrun) (EventRing.pop_waitList hpop)⟩

end EventTask

end Wasabi
