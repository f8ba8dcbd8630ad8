import Wasabi.EventWait
import Wasabi.RingDelivery

namespace Wasabi
set_option autoImplicit true

/-- A push: the ring, the slot, the address that `push` returned, and whether its task waits for
the event. -/
structure Request (ι : Type) where
  ring : ι
  slot : Fin 16
  addr : BitVec 64
  waits : Bool

/-- The rings, the event ring with its waiters, the request that the running task has still to
register, all requests, whose event each posted event is, and what the futures have returned. -/
structure WaitSystem (ι : Type) where
  rings : ι → CommandRing
  queue : EventSystem
  waiters : Nat → Option EventWaitInfo
  issuing : Option Nat
  requests : List (Request ι)
  owners : List Nat
  returned : List (Nat × GenericTrbEntry)

def DisjointRings (rings : ι → CommandRing) : Prop :=
  ∀ r r', r ≠ r' → ∀ i j, BitVec.ofNat 64 ((rings r).ring.addrOf i) ≠
    BitVec.ofNat 64 ((rings r').ring.addrOf j)

namespace WaitSystem

variable {ι : Type}

def init (rings : ι → CommandRing) (events : EventRing) : WaitSystem ι :=
  ⟨rings, .init events, fun _ => none, none, [], [], []⟩

def task (s : WaitSystem ι) : EventTask := ⟨s.queue.events, s.waiters⟩

def processed (s : WaitSystem ι) : List Nat := s.owners.take s.queue.popped.length

def EventOf (s : WaitSystem ι) (k : Nat) (e : GenericTrbEntry) : Prop :=
  ∃ (i : Nat) (x : Fin 16 × GenericTrbEntry), i < s.queue.popped.length ∧
    s.owners[i]? = some k ∧ s.queue.posted[i]? = some x ∧ x.2 = e

/-- If the last push to the slot that is next in ring `r` has an event, that event has been
popped. -/
def SlotFree (s : WaitSystem ι) (r : ι) : Prop :=
  ∀ (k : Nat) (q : Request ι), s.requests[k]? = some q → q.waits = true → q.ring = r →
    q.slot = (s.rings r).ring.currentIndex →
    (∀ (k' : Nat) (q' : Request ι), k < k' → s.requests[k']? = some q' →
      ¬(q'.ring = r ∧ q'.slot = q.slot)) →
    k ∈ s.processed

end WaitSystem

/-- The stores of the tasks, the controller and the event task. Between a push and its registration
the task does not await, so no other task runs. -/
inductive WaitStep {ι : Type} [DecidableEq ι] : WaitSystem ι → WaitSystem ι → Prop where
  | push : s.issuing = none ∨ waits = false → s.SlotFree r →
      CommandRing.push src (s.rings r) = .ok ptr ring →
      WaitStep s { s with
        rings := Function.update s.rings r ring
        requests := s.requests ++
          [⟨r, (s.rings r).ring.currentIndex, BitVec.ofNat 64 ptr, waits⟩]
        issuing := if waits then some s.requests.length else s.issuing }
  | register : s.issuing = some k → s.requests[k]? = some q →
      EventFuture.newForTrb q.addr k s.task = task →
      WaitStep s { s with
        queue := { s.queue with events := task.events }
        waiters := task.waiters
        issuing := none }
  | post : s.requests[k]? = some q → q.waits = true → k ∉ s.owners → e.data = q.addr →
      e.kind = TrbType.commandCompletionEvent.value ∨ e.kind = TrbType.transferEvent.value →
      ¬s.queue.Full →
      WaitStep s { s with queue := s.queue.post e, owners := s.owners ++ [k] }
  | flags : s.queue.events.erdp = some r → addressBits low = 0 →
      WaitStep s { s with queue := { s.queue with
        events := { s.queue.events with erdp := some (addressBits r ||| low) } } }
  | poll : s.issuing = none → EventRing.pop s.queue.events = .ok e popped →
      EventTask.poll s.task = .ok () task →
      WaitStep s { s with
        queue := { s.queue with
          events := task.events
          popped := s.queue.popped ++ e.toList }
        waiters := task.waiters }
  | ready : s.issuing = none → s.waiters k = some w → EventFuture.poll w = (some e, w') →
      WaitStep s { s with
        waiters := Function.update s.waiters k none
        returned := s.returned ++ [(k, e)] }
  | pending : s.issuing = none → s.waiters k = some w → EventFuture.poll w = (none, w') →
      WaitStep s { s with waiters := Function.update s.waiters k (some w') }
  | drop : s.issuing = none → WaitStep s { s with waiters := Function.update s.waiters k none }

structure WaitInv {ι : Type} (s : WaitSystem ι) : Prop where
  queue : EventInv s.queue
  disjoint : DisjointRings s.rings
  addr : ∀ (k : Nat) q, s.requests[k]? = some q →
    q.addr = BitVec.ofNat 64 ((s.rings q.ring).ring.addrOf q.slot)
  ownersLen : s.owners.length = s.queue.posted.length
  ownersNodup : s.owners.Nodup
  ownerData : ∀ (i : Nat) k x, s.owners[i]? = some k → s.queue.posted[i]? = some x →
    ∃ q, s.requests[k]? = some q ∧ q.waits = true ∧ x.2.data = q.addr
  slots : ∀ (k k' : Nat) q q', k < k' → s.requests[k]? = some q → s.requests[k']? = some q' →
    q.waits = true → q'.ring = q.ring → q'.slot = q.slot → k ∈ s.processed
  issuing : ∀ k, s.issuing = some k →
    k ∉ s.processed ∧ ∃ q, s.requests[k]? = some q ∧ q.waits = true
  waiter : ∀ k w, s.waiters k = some w →
    ∃ q, s.requests[k]? = some q ∧ q.waits = true ∧ w.cond = forTrb q.addr
  listed : ∀ k w, s.waiters k = some w → k ∈ s.queue.events.waitList
  empty : ∀ k w, s.waiters k = some w → k ∉ s.processed → w.trbs = []
  front : ∀ k w e, s.waiters k = some w → s.EventOf k e → w.trbs.head? = some e
  returned : ∀ k e, (k, e) ∈ s.returned → s.EventOf k e

namespace WaitInv

variable {ι : Type} {s : WaitSystem ι}

theorem init (hring : EventRing.initIrs irs (.new base hb) = .ok events)
    (hdis : DisjointRings rings) : WaitInv (WaitSystem.init rings events) := by
  constructor
  case queue => exact EventInv.init hring
  case disjoint => exact hdis
  case ownersLen => rfl
  case ownersNodup => exact List.nodup_nil
  case addr =>
    intro k q hq
    cases hq
  case ownerData =>
    intro i k x hk
    cases hk
  case slots =>
    intro k k' q q' _ hq
    cases hq
  case issuing =>
    intro k hk
    cases hk
  case waiter =>
    intro k w hw
    cases hw
  case listed =>
    intro k w hw
    cases hw
  case empty =>
    intro k w hw
    cases hw
  case front =>
    intro k w e hw
    cases hw
  case returned =>
    intro k e he
    cases he

theorem distinct (h : WaitInv s) (hq : s.requests[k]? = some q) (hq' : s.requests[k']? = some q')
    (hw : q.waits = true) (hw' : q'.waits = true) (haddr : q.addr = q'.addr) (hne : k ≠ k') :
    k ∈ s.processed ∨ k' ∈ s.processed := by
  rw [h.addr k q hq, h.addr k' q' hq'] at haddr
  have hring : q.ring = q'.ring := by
    by_contra hring
    exact h.disjoint _ _ hring _ _ haddr
  rw [hring] at haddr
  have hslot := EventInv.addrOf_ofNat_inj haddr
  rcases Nat.lt_or_gt_of_ne hne with hlt | hgt
  · exact .inl (h.slots k k' q q' hlt hq hq' hw hring.symm hslot.symm)
  · exact .inr (h.slots k' k q' q hgt hq' hq hw' hring hslot)

theorem processed_eventOf (h : WaitInv s) (hk : k ∈ s.processed) : ∃ e, s.EventOf k e := by
  obtain ⟨i, hi⟩ := List.mem_iff_getElem?.1 hk
  rw [WaitSystem.processed, List.getElem?_take] at hi
  split at hi
  · next hlt =>
    have hpost : i < s.queue.posted.length := Nat.lt_of_lt_of_le hlt h.queue.behind
    exact ⟨_, i, _, hlt, hi, List.getElem?_eq_getElem hpost, rfl⟩
  · cases hi

theorem eventOf_processed (he : s.EventOf k e) : k ∈ s.processed := by
  obtain ⟨i, x, hi, hk, _, _⟩ := he
  apply List.mem_iff_getElem?.2
  refine ⟨i, ?_⟩
  rw [WaitSystem.processed, List.getElem?_take, if_pos hi, hk]

theorem owner_lt (h : WaitInv s) (hk : k ∈ s.owners) : k < s.requests.length := by
  obtain ⟨i, hi⟩ := List.mem_iff_getElem?.1 hk
  obtain ⟨hlt, _⟩ := List.getElem?_eq_some_iff.1 hi
  rw [h.ownersLen] at hlt
  obtain ⟨q, hq, _⟩ := h.ownerData i k _ hi (List.getElem?_eq_getElem hlt)
  obtain ⟨hlt', _⟩ := List.getElem?_eq_some_iff.1 hq
  exact hlt'

/-- A push to a free slot keeps the turns: the last request for the slot has been served. -/
theorem slots_push (h : WaitInv s) (hfree : s.SlotFree q₀.ring)
    (hslot : q₀.slot = (s.rings q₀.ring).ring.currentIndex) (hlt : k < k')
    (hq : (s.requests ++ [q₀])[k]? = some q) (hq' : (s.requests ++ [q₀])[k']? = some q')
    (hw : q.waits = true) (hr : q'.ring = q.ring) (hs : q'.slot = q.slot) : k ∈ s.processed := by
  rcases getElem?_concat_cases hq' with ⟨hlt', hq'⟩ | ⟨rfl, rfl⟩
  · rcases getElem?_concat_cases hq with ⟨_, hq⟩ | ⟨rfl, _⟩
    · exact h.slots k k' q q' hlt hq hq' hw hr hs
    · omega
  · rcases getElem?_concat_cases hq with ⟨_, hq⟩ | ⟨rfl, _⟩
    · by_cases hlater : ∃ (k₂ : Nat) (q₂ : Request ι), k < k₂ ∧ s.requests[k₂]? = some q₂ ∧
          q₂.ring = q'.ring ∧ q₂.slot = q.slot
      · obtain ⟨k₂, q₂, hlt₂, hq₂, hr₂, hs₂⟩ := hlater
        exact h.slots k k₂ q q₂ hlt₂ hq hq₂ hw (hr₂.trans hr) hs₂
      · apply hfree k q hq hw hr.symm (hs.symm.trans hslot)
        intro k₂ q₂ hlt₂ hq₂ hsame
        exact hlater ⟨k₂, q₂, hlt₂, hq₂, hsame⟩
    · omega

theorem push [DecidableEq ι] (h : WaitInv s) (hidle : s.issuing = none ∨ waits = false)
    (hfree : s.SlotFree r) (hpush : CommandRing.push src (s.rings r) = .ok ptr ring) :
    WaitInv { s with
      rings := Function.update s.rings r ring
      requests := s.requests ++
        [⟨r, (s.rings r).ring.currentIndex, BitVec.ofNat 64 ptr, waits⟩]
      issuing := if waits then some s.requests.length else s.issuing } := by
  obtain ⟨rfl, hbase⟩ := CommandRing.push_ptr hpush
  have haddr : ∀ r' i, (Function.update s.rings r ring r').ring.addrOf i =
      (s.rings r').ring.addrOf i := by
    intro r' i
    unfold TrbRing.addrOf
    by_cases hr : r' = r
    · subst hr
      rw [Function.update_self, hbase]
    · rw [Function.update_of_ne hr]
  refine { h with
    disjoint := ?disjoint
    addr := ?addr
    ownerData := ?ownerData
    slots := ?slots
    issuing := ?issuing
    waiter := ?waiter }
  case disjoint =>
    intro r₁ r₂ hne i j
    rw [haddr, haddr]
    exact h.disjoint r₁ r₂ hne i j
  case addr =>
    intro k q hq
    rw [haddr]
    rcases getElem?_concat_cases hq with ⟨_, hq⟩ | ⟨_, rfl⟩
    · exact h.addr k q hq
    · rfl
  case ownerData =>
    intro i k x hk hx
    obtain ⟨q, hq, hw, hdata⟩ := h.ownerData i k x hk hx
    exact ⟨q, getElem?_concat_of_some _ hq, hw, hdata⟩
  case slots =>
    intro k k' q q' hlt hq hq' hw hr hs
    exact h.slots_push hfree rfl hlt hq hq' hw hr hs
  case issuing =>
    intro k hk
    cases waits with
    | false =>
      obtain ⟨hk', q, hq, hw⟩ := h.issuing k hk
      exact ⟨hk', q, getElem?_concat_of_some _ hq, hw⟩
    | true =>
      cases hk
      constructor
      · intro hk
        exact Nat.lt_irrefl _ (h.owner_lt (List.mem_of_mem_take hk))
      · exact ⟨_, List.getElem?_concat_length, rfl⟩
  case waiter =>
    intro k w hw
    obtain ⟨q, hq, hwaits, hcond⟩ := h.waiter k w hw
    exact ⟨q, getElem?_concat_of_some _ hq, hwaits, hcond⟩

theorem register (h : WaitInv s) (hk : s.issuing = some k) (hq : s.requests[k]? = some q)
    (hnew : EventFuture.newForTrb q.addr k s.task = task) :
    WaitInv { s with
      queue := { s.queue with events := task.events }
      waiters := task.waiters
      issuing := none } := by
  subst hnew
  obtain ⟨hnot, q', hq', hw⟩ := h.issuing k hk
  rw [hq] at hq'
  cases hq'
  refine { h with
    queue := ?queue
    issuing := ?issuing
    waiter := ?waiter
    listed := ?listed
    empty := ?empty
    front := ?front }
  case queue => exact h.queue.withWaitList _
  case issuing =>
    intro k hk
    cases hk
  case waiter =>
    intro k' w hw'
    rcases EventFuture.newForTrb_waiters hw' with ⟨rfl, rfl⟩ | hw'
    · exact ⟨q, hq, hw, rfl⟩
    · exact h.waiter k' w hw'
  case listed =>
    intro k' w hw'
    apply List.mem_append.2
    rcases EventFuture.newForTrb_waiters hw' with ⟨rfl, rfl⟩ | hw'
    · exact .inr (List.mem_singleton.2 rfl)
    · exact .inl (h.listed k' w hw')
  case empty =>
    intro k' w hw' hk'
    rcases EventFuture.newForTrb_waiters hw' with ⟨rfl, rfl⟩ | hw'
    · rfl
    · exact h.empty k' w hw' hk'
  case front =>
    intro k' w e hw' hevent
    rcases EventFuture.newForTrb_waiters hw' with ⟨rfl, rfl⟩ | hw'
    · exact absurd (eventOf_processed hevent) hnot
    · exact h.front k' w e hw' hevent

theorem processed_post (h : WaitInv s) (k : Nat) (e : GenericTrbEntry) :
    WaitSystem.processed { s with queue := s.queue.post e, owners := s.owners ++ [k] } =
      s.processed := by
  apply List.take_append_of_le_length
  rw [h.ownersLen]
  exact h.queue.behind

theorem eventOf_post (h : WaitInv s) {e : GenericTrbEntry} : WaitSystem.EventOf { s with
    queue := s.queue.post e, owners := s.owners ++ [k] } k' e' ↔ s.EventOf k' e' := by
  constructor
  · rintro ⟨i, x, hi, hk', hx, hxe⟩
    have hlt : i < s.queue.posted.length := Nat.lt_of_lt_of_le hi h.queue.behind
    have hlen := h.ownersLen
    rcases getElem?_concat_cases hk' with ⟨_, hk'⟩ | ⟨heq, _⟩
    · rcases getElem?_concat_cases hx with ⟨_, hx⟩ | ⟨heq, _⟩
      · exact ⟨i, x, hi, hk', hx, hxe⟩
      · omega
    · omega
  · rintro ⟨i, x, hi, hk', hx, hxe⟩
    exact ⟨i, x, hi, getElem?_concat_of_some _ hk', getElem?_concat_of_some _ hx, hxe⟩

theorem post (h : WaitInv s) (hq : s.requests[k]? = some q) (hw : q.waits = true)
    (hk : k ∉ s.owners) (hdata : e.data = q.addr) (hfull : ¬s.queue.Full) :
    WaitInv { s with queue := s.queue.post e, owners := s.owners ++ [k] } := by
  have hprocessed := h.processed_post k e
  constructor
  case queue => exact h.queue.post e hfull
  case disjoint => exact h.disjoint
  case addr => exact h.addr
  case ownersLen =>
    simp only [EventSystem.post, List.length_append, List.length_singleton, h.ownersLen]
  case ownersNodup =>
    rw [List.nodup_append]
    refine ⟨h.ownersNodup, List.nodup_cons.2 ⟨List.not_mem_nil, List.nodup_nil⟩, ?_⟩
    rintro k' hk' _ hsingle rfl
    rw [List.mem_singleton] at hsingle
    subst hsingle
    exact hk hk'
  case ownerData =>
    intro i k' x hk' hx
    rcases getElem?_concat_cases hk' with ⟨hlt, hk'⟩ | ⟨rfl, rfl⟩
    · rcases getElem?_concat_cases hx with ⟨_, hx⟩ | ⟨heq, _⟩
      · exact h.ownerData i k' x hk' hx
      · rw [h.ownersLen] at hlt
        omega
    · rcases getElem?_concat_cases hx with ⟨hlt, _⟩ | ⟨_, rfl⟩
      · rw [h.ownersLen] at hlt
        exact absurd hlt (Nat.lt_irrefl _)
      · exact ⟨q, hq, hw, hdata⟩
  case slots =>
    intro k₁ k₂ q₁ q₂ hlt hq₁ hq₂ hw₁ hr hs
    rw [hprocessed]
    exact h.slots k₁ k₂ q₁ q₂ hlt hq₁ hq₂ hw₁ hr hs
  case issuing =>
    intro k' hk'
    rw [hprocessed]
    exact h.issuing k' hk'
  case waiter => exact h.waiter
  case listed => exact h.listed
  case empty =>
    intro k' w hw' hk'
    rw [hprocessed] at hk'
    exact h.empty k' w hw' hk'
  case front =>
    intro k' w e' hw' hevent
    exact h.front k' w e' hw' (h.eventOf_post.1 hevent)
  case returned =>
    intro k' e' he'
    exact h.eventOf_post.2 (h.returned k' e' he')

theorem owner_next (h : WaitInv s) (hlt : s.queue.popped.length < s.queue.posted.length) :
    ∃ k q x, s.owners[s.queue.popped.length]? = some k ∧
      s.queue.posted[s.queue.popped.length]? = some x ∧ x.2 = s.queue.events.ring.current ∧
      s.requests[k]? = some q ∧ q.waits = true ∧
      s.queue.events.ring.current.data = q.addr ∧ k ∉ s.processed := by
  have hlt' : s.queue.popped.length < s.owners.length := by
    rw [h.ownersLen]
    exact hlt
  have hk := List.getElem?_eq_getElem hlt'
  have hx := List.getElem?_eq_getElem hlt
  have hcurrent := h.queue.current_eq hlt
  rw [List.getElem?_map, hx, Option.map_some, Option.some.injEq] at hcurrent
  obtain ⟨q, hq, hw, hdata⟩ := h.ownerData _ _ _ hk hx
  rw [hcurrent] at hdata
  refine ⟨_, q, _, hk, hx, hcurrent, hq, hw, hdata, ?_⟩
  intro hmem
  obtain ⟨i, hi⟩ := List.mem_iff_getElem?.1 hmem
  rw [WaitSystem.processed, List.getElem?_take] at hi
  split at hi
  · next hi' =>
    have heq := (List.getElem?_inj hlt' h.ownersNodup).1 (hk.trans hi.symm)
    omega
  · cases hi

def polled (s : WaitSystem ι) (ring : EventRing) (e : GenericTrbEntry) : WaitSystem ι :=
  { s with
    queue := { s.queue with
      events := { ring with waitList := ring.waitList.filter fun id => (s.waiters id).isSome }
      popped := s.queue.popped ++ [e] }
    waiters := fun id => (s.waiters id).map fun w =>
      if w.accepts e then w.pushed e (ring.waitList.count id) else w }

theorem processed_polled (hk : s.owners[s.queue.popped.length]? = some k) :
    (polled s ring e).processed = s.processed ++ [k] := by
  simp only [WaitSystem.processed, polled, List.length_append, List.length_singleton]
  rw [List.take_add_one, hk, Option.toList_some]

theorem eventOf_polled (hk : s.owners[s.queue.popped.length]? = some k)
    (hx : s.queue.posted[s.queue.popped.length]? = some x) (hxe : x.2 = e) :
    (polled s ring e).EventOf k' e' ↔ s.EventOf k' e' ∨ k' = k ∧ e' = e := by
  have hlen : (polled s ring e).queue.popped.length = s.queue.popped.length + 1 := by
    rw [polled, List.length_append, List.length_singleton]
  constructor
  · rintro ⟨i, x', hi, hk', hx', hxe'⟩
    rw [hlen] at hi
    rcases Nat.lt_or_eq_of_le (Nat.le_of_lt_succ hi) with hlt | rfl
    · exact .inl ⟨i, x', hlt, hk', hx', hxe'⟩
    · have hkk := Option.some.inj (hk'.symm.trans hk)
      have hxx := Option.some.inj (hx'.symm.trans hx)
      subst hxx
      exact .inr ⟨hkk, hxe'.symm.trans hxe⟩
  · rintro (⟨i, x', hi, hk', hx', hxe'⟩ | ⟨rfl, rfl⟩)
    · exact ⟨i, x', by omega, hk', hx', hxe'⟩
    · exact ⟨_, x, by omega, hk, hx, hxe⟩

theorem polled_waiters (h : WaitInv s) (hw : (polled s ring e).waiters k = some w') :
    ∃ w q, s.waiters k = some w ∧ s.requests[k]? = some q ∧ q.waits = true ∧
      w.cond = forTrb q.addr ∧
      w' = if e.data = q.addr then w.pushed e (ring.waitList.count k) else w := by
  obtain ⟨w, hold, rfl⟩ := Option.map_eq_some_iff.1 hw
  obtain ⟨q, hq, hwaits, hcond⟩ := h.waiter k w hold
  refine ⟨w, q, hold, hq, hwaits, hcond, ?_⟩
  simp [EventWaitInfo.accepts, hcond, forTrb]

theorem pollSome (h : WaitInv s) (hidle : s.issuing = none)
    (hlt : s.queue.popped.length < s.queue.posted.length)
    (hpop : EventRing.pop s.queue.events = .ok (some e) ring) :
    WaitInv (polled s ring e) := by
  obtain ⟨ring', hpop', _, hlist, hqueue⟩ := h.queue.popSome hlt
  rw [hpop'] at hpop
  cases hpop
  obtain ⟨k, q, x, hk, hx, hxe, hq, hw, hdata, hnot⟩ := h.owner_next hlt
  have hprocessed : (polled s ring s.queue.events.ring.current).processed = s.processed ++ [k] :=
    processed_polled hk
  have hevent : ∀ k' e', (polled s ring s.queue.events.ring.current).EventOf k' e' ↔
      s.EventOf k' e' ∨ k' = k ∧ e' = s.queue.events.ring.current :=
    fun _ _ => eventOf_polled hk hx hxe
  constructor
  case queue => exact hqueue.withWaitList _
  case disjoint => exact h.disjoint
  case addr => exact h.addr
  case ownersLen => exact h.ownersLen
  case ownersNodup => exact h.ownersNodup
  case ownerData => exact h.ownerData
  case slots =>
    intro k₁ k₂ q₁ q₂ hlt hq₁ hq₂ hw₁ hr hs
    rw [hprocessed]
    exact List.mem_append_left _ (h.slots k₁ k₂ q₁ q₂ hlt hq₁ hq₂ hw₁ hr hs)
  case issuing =>
    intro k' hk'
    rw [polled, hidle] at hk'
    cases hk'
  case waiter =>
    intro k' w' hw'
    obtain ⟨w, q', hw, hq', hwaits, hcond, rfl⟩ := h.polled_waiters hw'
    refine ⟨q', hq', hwaits, ?_⟩
    split
    · exact hcond
    · exact hcond
  case listed =>
    intro k' w' hw'
    obtain ⟨w, _, hw, _⟩ := h.polled_waiters hw'
    apply List.mem_filter.2
    rw [hlist]
    exact ⟨h.listed k' w hw, by rw [hw, Option.isSome_some]⟩
  case empty =>
    intro k' w' hw' hk'
    rw [hprocessed, List.mem_append, List.mem_singleton, not_or] at hk'
    obtain ⟨w, q', hw'', hq', hwaits, _, rfl⟩ := h.polled_waiters hw'
    have hne : ¬s.queue.events.ring.current.data = q'.addr := by
      intro haddr
      rcases h.distinct hq' hq hwaits hw (haddr.symm.trans hdata) hk'.2 with hdone | hdone
      · exact hk'.1 hdone
      · exact hnot hdone
    rw [if_neg hne]
    exact h.empty k' w hw'' hk'.1
  case front =>
    intro k' w' e' hw' he'
    obtain ⟨w, q', hw'', hq', hwaits, _, rfl⟩ := h.polled_waiters hw'
    rcases (hevent k' e').1 he' with hold | ⟨rfl, rfl⟩
    · have hhead := h.front k' w e' hw'' hold
      split
      · rw [EventWaitInfo.pushed, List.head?_append, hhead]
        rfl
      · exact hhead
    · have hempty := h.empty k' w hw'' hnot
      have hmem := h.listed k' w hw''
      rw [hq] at hq'
      cases hq'
      rw [if_pos hdata, EventWaitInfo.pushed, hempty, List.nil_append, hlist]
      rw [List.head?_replicate, if_neg (Nat.ne_of_gt (List.count_pos_iff.2 hmem))]
  case returned =>
    intro k' e' he'
    exact (hevent k' e').2 (.inl (h.returned k' e' he'))

theorem ready_own (h : WaitInv s) (hw : s.waiters k = some w)
    (he : (EventFuture.poll w).1 = some e) : s.EventOf k e := by
  by_cases hk : k ∈ s.processed
  · obtain ⟨e', hevent⟩ := h.processed_eventOf hk
    have hhead := h.front k w e' hw hevent
    unfold EventFuture.poll at he
    split at he
    · cases he
    · next trb trbs htrbs =>
      rw [htrbs] at hhead
      cases hhead
      cases he
      exact hevent
  · have hempty := h.empty k w hw hk
    rw [EventFuture.poll, hempty] at he
    cases he

theorem ready_of_eventOf (h : WaitInv s) (hw : s.waiters k = some w) (he : s.EventOf k e) :
    (EventFuture.poll w).1 = some e := by
  have hhead := h.front k w e hw he
  unfold EventFuture.poll
  split
  · next htrbs =>
    rw [htrbs] at hhead
    cases hhead
  · next trb trbs htrbs =>
    rw [htrbs] at hhead
    exact hhead

theorem pending_eq (he : EventFuture.poll w = (none, w')) : w' = w := by
  unfold EventFuture.poll at he
  split at he
  · cases he
    rfl
  · cases he

theorem drop (h : WaitInv s) (k : Nat) :
    WaitInv { s with waiters := Function.update s.waiters k none } := by
  have hold : ∀ {k' w}, Function.update s.waiters k none k' = some w → s.waiters k' = some w := by
    intro k' w hw
    by_cases hk : k' = k
    · subst hk
      rw [Function.update_self] at hw
      cases hw
    · rwa [Function.update_of_ne hk] at hw
  refine { h with waiter := ?waiter, listed := ?listed, empty := ?empty, front := ?front }
  case waiter =>
    intro k' w hw
    exact h.waiter k' w (hold hw)
  case listed =>
    intro k' w hw
    exact h.listed k' w (hold hw)
  case empty =>
    intro k' w hw
    exact h.empty k' w (hold hw)
  case front =>
    intro k' w e hw
    exact h.front k' w e (hold hw)

theorem ready (h : WaitInv s) (hw : s.waiters k = some w) (he : EventFuture.poll w = (some e, w')) :
    WaitInv { s with
      waiters := Function.update s.waiters k none
      returned := s.returned ++ [(k, e)] } := by
  have hown := h.ready_own hw (congrArg Prod.fst he)
  have hdrop := h.drop k
  exact { hdrop with
    returned := by
      intro k' e' he'
      rcases List.mem_append.1 he' with he' | he'
      · exact h.returned k' e' he'
      · cases List.mem_singleton.1 he'
        exact hown }

theorem flags (h : WaitInv s) (hr : s.queue.events.erdp = some r) (hlow : addressBits low = 0) :
    WaitInv { s with queue := { s.queue with
      events := { s.queue.events with erdp := some (addressBits r ||| low) } } } :=
  { h with queue := h.queue.flags hr hlow }

theorem step [DecidableEq ι] (h : WaitInv s) (hstep : WaitStep s t) : WaitInv t := by
  cases hstep with
  | push hidle hfree hpush => exact h.push hidle hfree hpush
  | register hk hq hnew => exact h.register hk hq hnew
  | post hq hw hk hdata _ hfull => exact h.post hq hw hk hdata hfull
  | flags hr hlow => exact h.flags hr hlow
  | poll hidle hpop hpoll =>
    rcases Nat.lt_or_ge s.queue.popped.length s.queue.posted.length with hlt | hge
    · obtain ⟨ring, hpop', _⟩ := h.queue.popSome hlt
      rw [hpop'] at hpop
      cases hpop
      rw [EventTask.poll_some s.task hpop'] at hpoll
      cases hpoll
      exact h.pollSome hidle hlt hpop'
    · have hpop' := h.queue.popNone hge
      rw [hpop'] at hpop
      cases hpop
      rw [EventTask.poll_none s.task hpop'] at hpoll
      cases hpoll
      rw [Option.toList_none, List.append_nil]
      exact h
  | ready _ hw he => exact h.ready hw he
  | pending _ hw he =>
    rw [pending_eq he, ← hw, Function.update_eq_self]
    exact h
  | drop _ => exact h.drop _

/-- The next poll of a future whose event has been processed returns that event. -/
theorem returns [DecidableEq ι] (h : WaitInv s) (hidle : s.issuing = none)
    (hk : (s.waiters k).isSome) (he : s.EventOf k e) :
    ∃ t, WaitStep s t ∧ t.returned = s.returned ++ [(k, e)] := by
  obtain ⟨w, hw⟩ := Option.isSome_iff_exists.1 hk
  exact ⟨_, .ready hidle hw (Prod.ext (h.ready_of_eventOf hw he) rfl), rfl⟩

theorem of_runs [DecidableEq ι] {rings : ι → CommandRing}
    (hring : EventRing.initIrs irs (.new base hb) = .ok events) (hdis : DisjointRings rings)
    (hs : Runs WaitStep (.init rings events) s) : WaitInv s :=
  Runs.invariant WaitInv (fun _ _ h hstep => h.step hstep) hs (WaitInv.init hring hdis)

end WaitInv

structure RequestsServed {ι : Type} (s : WaitSystem ι) : Prop where
  returnsOwn : ∀ k e, (k, e) ∈ s.returned → s.EventOf k e
  readyOwn : ∀ k w e, s.waiters k = some w → (EventFuture.poll w).1 = some e → s.EventOf k e
  readyAfter : ∀ k w e, s.waiters k = some w → s.EventOf k e → (EventFuture.poll w).1 = some e
  listed : ∀ k w, s.waiters k = some w → k ∈ s.queue.events.waitList
  notLost : ∀ (i : Nat) k x, s.owners[i]? = some k → s.queue.posted[i]? = some x →
    s.EventOf k x.2 ∨ x ∈ s.queue.unread
  polls : ∃ task, EventTask.poll s.task = .ok () task

theorem requests_served {ι : Type} [DecidableEq ι] {rings : ι → CommandRing} {s : WaitSystem ι}
    (hring : EventRing.initIrs irs (.new base hb) = .ok events) (hdis : DisjointRings rings)
    (hs : Runs WaitStep (.init rings events) s) : RequestsServed s := by
  have h := WaitInv.of_runs hring hdis hs
  constructor
  case returnsOwn => exact h.returned
  case readyOwn =>
    intro k w e hw he
    exact h.ready_own hw he
  case readyAfter =>
    intro k w e hw he
    exact h.ready_of_eventOf hw he
  case listed => exact h.listed
  case notLost =>
    intro i k x hk hx
    rcases Nat.lt_or_ge i s.queue.popped.length with hlt | hge
    · exact .inl ⟨i, x, hlt, hk, hx, rfl⟩
    · right
      apply List.mem_iff_getElem?.2
      refine ⟨i - s.queue.popped.length, ?_⟩
      rw [EventInv.unread_getElem?, Nat.add_sub_cancel' hge, hx]
  case polls =>
    rcases Nat.lt_or_ge s.queue.popped.length s.queue.posted.length with hlt | hge
    · obtain ⟨ring, hpop, _⟩ := h.queue.popSome hlt
      exact ⟨_, EventTask.poll_some s.task hpop⟩
    · exact ⟨_, EventTask.poll_none s.task (h.queue.popNone hge)⟩

def twoRings : Bool → CommandRing
  | false => .fresh 8192 rfl
  | true => .fresh 12288 rfl

theorem twoRings_disjoint : DisjointRings twoRings := by
  intro r r' hne i j he
  have hnat := congrArg BitVec.toNat he
  simp only [BitVec.toNat_ofNat, TrbRing.addrOf] at hnat
  cases r <;> cases r' <;>
    simp only [twoRings, CommandRing.fresh, ne_eq, not_true_eq_false] at hne hnat
  · omega
  · omega

/-- A command on one of two rings, from its push to the value of its future. -/
theorem requests_served_command : ∃ (events : EventRing) (s : WaitSystem Bool),
    EventRing.initIrs 0 (.new 4096 rfl) = .ok events ∧ Runs WaitStep (.init twoRings events) s ∧
    s.returned = [(0, (⟨8192, 0x1000000, 0x8400⟩ : GenericTrbEntry).withCycle true)] ∧
    RequestsServed s := by
  obtain ⟨events, hevents⟩ : ∃ events, EventRing.initIrs 0 (.new 4096 rfl) = .ok events :=
    ⟨_, if_pos (by decide)⟩
  have hinv : RingInv 15 (.init (.fresh 8192 rfl)) 0 0 :=
    RingInv.init (CommandRing.default_eq _ rfl)
  have hkind : (⟨0, 0, 0x2400⟩ : GenericTrbEntry).kind ≠ TrbType.link.value := by decide
  obtain ⟨ring, hpush, _⟩ := hinv.push_ok rfl hkind (Nat.zero_lt_succ 14)
  have hpushed : Runs WaitStep (.init twoRings events) _ := .single
    (@WaitStep.push Bool _ true _ _ _ _ false (.inl rfl) (fun _ _ hq => by cases hq) hpush)
  have hregistered := hpushed.tail (.register rfl rfl rfl)
  have h := WaitInv.of_runs hevents twoRings_disjoint hregistered
  have hroom : (0 : Nat) ≠ 15 := by decide
  have hposted := hregistered.tail (@WaitStep.post Bool _ 0 _ _ ⟨8192, 0x1000000, 0x8400⟩ rfl rfl
    List.not_mem_nil rfl (.inl (by decide)) fun hfull => hroom (h.queue.full_iff.1 hfull))
  have h' := WaitInv.of_runs hevents twoRings_disjoint hposted
  obtain ⟨after, hpop, _⟩ := h'.queue.popSome (Nat.zero_lt_succ 0)
  have hpolled := hposted.tail (.poll rfl hpop (EventTask.poll_some _ hpop))
  have h'' := WaitInv.of_runs hevents twoRings_disjoint hpolled
  obtain ⟨s, hready, hreturned⟩ := h''.returns rfl rfl ⟨0, _, Nat.zero_lt_succ 0, rfl, rfl, rfl⟩
  have hruns := hpolled.tail hready
  exact ⟨events, s, hevents, hruns, hreturned, requests_served hevents twoRings_disjoint hruns⟩

end Wasabi
