import Wasabi.EventRing

namespace Wasabi
set_option autoImplicit true

open EventRing (pop)

def addressBits (r : BitVec 64) : BitVec 64 := r &&& ~~~0xf

theorem low_getLsbD (hi : i < 64) : (0xf : BitVec 64).getLsbD i = decide (i < 4) := by
  have h := mask_getLsbD (w := 64) (n := 4) (by omega) hi
  have hmask : (1#64 <<< 4) - 1#64 = 0xf := by decide
  rwa [hmask] at h

theorem addressBits_getLsbD (hi : i < 64) :
    (addressBits r).getLsbD i = (r.getLsbD i && decide (4 ≤ i)) := by
  rw [addressBits, BitVec.getLsbD_and, BitVec.getLsbD_not, low_getLsbD hi]
  by_cases h : i < 4
  · simp [h, Nat.not_le.2 h]
  · simp [h, hi, Nat.le_of_not_lt h]

theorem addressBits_or (ha : a % 16 = 0) :
    addressBits (BitVec.ofNat 64 a ||| (r &&& 0xf)) = BitVec.ofNat 64 a := by
  apply BitVec.eq_of_getLsbD_eq
  intro i hi
  rw [addressBits_getLsbD hi, BitVec.getLsbD_or, BitVec.getLsbD_and, low_getLsbD hi]
  by_cases h : i < 4
  · have hbit : (BitVec.ofNat 64 a).getLsbD i = false := by
      have hmod : (a % 2 ^ 4).testBit i = a.testBit i := by
        rw [Nat.testBit_mod_two_pow, decide_eq_true h, Bool.true_and]
      have hzero : a % 2 ^ 4 = 0 := ha
      rw [BitVec.getLsbD_ofNat, ← hmod, hzero, Nat.zero_testBit, Bool.and_false]
    rw [hbit, decide_eq_false (Nat.not_le.2 h), Bool.and_false]
  · rw [decide_eq_false h, Bool.and_false, Bool.or_false, decide_eq_true (Nat.le_of_not_lt h),
      Bool.and_true]

theorem addressBits_flags (h : addressBits low = 0) :
    addressBits (addressBits r ||| low) = addressBits r := by
  apply BitVec.eq_of_getLsbD_eq
  intro i hi
  have hlow := congrArg (BitVec.getLsbD · i) h
  simp only [addressBits_getLsbD hi] at hlow
  rw [addressBits_getLsbD hi, BitVec.getLsbD_or, addressBits_getLsbD hi, Bool.and_or_distrib_right,
    hlow, Bool.and_assoc, Bool.and_self]
  simp

/-- The event ring, the controller that fills it, and the events posted so far with the slot of
each, and popped so far. -/
structure EventSystem where
  events : EventRing
  enqueue : Fin 16
  pcs : Bool
  posted : List (Fin 16 × GenericTrbEntry)
  popped : List GenericTrbEntry

namespace EventSystem

def init (events : EventRing) : EventSystem := ⟨events, 0, true, [], []⟩

/-- The entry after the enqueue index is the one that ERDP designates. -/
def Full (s : EventSystem) : Prop :=
  s.events.erdp.map addressBits = some (BitVec.ofNat 64 (s.events.ring.addrOf (s.enqueue + 1)))

def post (s : EventSystem) (e : GenericTrbEntry) : EventSystem :=
  { s with
    events := { s.events with ring := { s.events.ring with
      trb := Function.update s.events.ring.trb s.enqueue (e.withCycle s.pcs) } }
    enqueue := s.enqueue + 1
    pcs := if s.enqueue = 15 then !s.pcs else s.pcs
    posted := s.posted ++ [(s.enqueue, e.withCycle s.pcs)] }

theorem length_posted (s : EventSystem) (e : GenericTrbEntry) :
    (s.post e).posted.length = s.posted.length + 1 := List.length_append

def unread (s : EventSystem) : List (Fin 16 × GenericTrbEntry) := s.posted.drop s.popped.length

end EventSystem

/-- The controller posts an event or sets the low bits of ERDP; the software pops. -/
inductive EventStep : EventSystem → EventSystem → Prop where
  | post : ¬s.Full → EventStep s (s.post e)
  | flags : s.events.erdp = some r → addressBits low = 0 →
      EventStep s { s with events := { s.events with erdp := some (addressBits r ||| low) } }
  | pop : pop s.events = .ok e events →
      EventStep s { s with events := events, popped := s.popped ++ e.toList }

def eventSlot (k : Nat) : Fin 16 := ⟨k % 16, by omega⟩

structure EventInv (s : EventSystem) : Prop where
  enqueue : s.enqueue = eventSlot s.posted.length
  pcs : s.pcs = phase 16 s.posted.length
  bits : ∀ i, (s.events.ring.trb i).cycle = bitAt 16 s.posted.length i
  index : s.events.ring.currentIndex = eventSlot s.popped.length
  ours : s.events.cycleStateOurs = phase 16 s.popped.length
  behind : s.popped.length ≤ s.posted.length
  erdp : s.events.erdp.map addressBits =
    some (BitVec.ofNat 64 (s.events.ring.addrOf (eventSlot (s.popped.length - 1))))
  room : s.posted.length ≤ s.popped.length - 1 + 15
  slots : ∀ k x, s.posted[k]? = some x → x.1 = eventSlot k
  contents : ∀ k x, s.posted[k]? = some x → s.posted.length ≤ k + 16 →
    s.events.ring.trb x.1 = x.2
  popped_eq : s.popped = (s.posted.map Prod.snd).take s.popped.length

namespace EventInv

variable {s : EventSystem}

theorem eventSlot_succ (k : Nat) : eventSlot k + 1 = eventSlot (k + 1) := by
  apply Fin.ext
  rw [TrbRing.val_succ]
  simp only [eventSlot]
  omega

theorem addrOf_ofNat_inj {ring : TrbRing}
    (h : BitVec.ofNat 64 (ring.addrOf i) = BitVec.ofNat 64 (ring.addrOf j)) : i = j := by
  have hnat := congrArg BitVec.toNat h
  simp only [BitVec.toNat_ofNat, TrbRing.addrOf] at hnat
  apply Fin.ext
  omega

theorem addrOf_mod (ring : TrbRing) (i : Fin 16) : ring.addrOf i % 16 = 0 := by
  have h := ring.aligned
  unfold TrbRing.addrOf
  omega

theorem init (h : EventRing.initIrs irs (.new base hb) = .ok events) :
    EventInv (.init events) := by
  rw [EventRing.initIrs] at h
  split at h
  · cases h
    constructor
    case enqueue => rfl
    case pcs => exact (phase_zero 16).symm
    case bits =>
      intro i
      have hclear : GenericTrbEntry.default.cycle = false := by decide
      exact hclear.trans (bitAt_zero 16 i).symm
    case index => rfl
    case ours => exact (phase_zero 16).symm
    case behind => exact Nat.le_refl 0
    case erdp =>
      have hmod := addrOf_mod (.new base hb) 0
      have haddr := addressBits_or (r := 0) hmod
      simp only [BitVec.ofNat_eq_ofNat, BitVec.zero_and, BitVec.or_zero] at haddr
      exact congrArg some haddr
    case room => exact Nat.zero_le _
    case slots =>
      intro k x hx
      cases hx
    case contents =>
      intro k x hx
      cases hx
    case popped_eq => rfl
  · cases h

/-- The controller may post exactly while fewer than 15 events follow the entry popped last. -/
theorem full_iff (h : EventInv s) : s.Full ↔ s.posted.length = s.popped.length - 1 + 15 := by
  have hroom := h.room
  have hb := h.behind
  rw [EventSystem.Full, h.erdp, Option.some.injEq, h.enqueue, eventSlot_succ]
  constructor
  · intro he
    have hslot := congrArg Fin.val (addrOf_ofNat_inj he)
    simp only [eventSlot] at hslot
    omega
  · intro he
    have hslot : eventSlot (s.popped.length - 1) = eventSlot (s.posted.length + 1) := by
      apply Fin.ext
      simp only [eventSlot]
      omega
    rw [hslot]

theorem post (h : EventInv s) (e : GenericTrbEntry) (hfull : ¬s.Full) : EventInv (s.post e) := by
  have hroom := h.room
  have hb := h.behind
  have hne : s.posted.length ≠ s.popped.length - 1 + 15 := fun he => hfull (h.full_iff.2 he)
  have hlen : (s.posted ++ [(s.enqueue, e.withCycle s.pcs)]).length = s.posted.length + 1 :=
    s.length_posted e
  have hslot := congrArg Fin.val h.enqueue
  simp only [eventSlot] at hslot
  unfold EventSystem.post
  constructor
  case enqueue =>
    simp only [hlen]
    rw [h.enqueue, eventSlot_succ]
  case pcs =>
    simp only [hlen]
    by_cases hlast : s.enqueue = 15
    · have hval := congrArg Fin.val hlast
      have h15 : (15 : Fin 16).val = 15 := rfl
      have hlap : (s.posted.length + 1) / 16 = s.posted.length / 16 + 1 := by omega
      rw [if_pos hlast, h.pcs, phase_succ hlap]
    · have h15 : s.enqueue.val ≠ 15 := by
        intro he
        exact hlast (Fin.ext he)
      have hlap : (s.posted.length + 1) / 16 = s.posted.length / 16 := by omega
      rw [if_neg hlast, h.pcs, phase, phase, hlap]
  case bits =>
    intro i
    simp only [hlen]
    rw [bitAt_succ (by omega) i.isLt, ← hslot]
    by_cases hi : i = s.enqueue
    · subst hi
      rw [Function.update_self, if_pos rfl, GenericTrbEntry.withCycle_cycle, h.pcs]
    · have hval : i.val ≠ s.enqueue.val := by
        intro he
        exact hi (Fin.ext he)
      rw [Function.update_of_ne hi, if_neg hval, h.bits]
  case index => exact h.index
  case ours => exact h.ours
  case behind =>
    simp only [hlen]
    omega
  case erdp => exact h.erdp
  case room =>
    simp only [hlen]
    omega
  case slots =>
    intro k x hx
    rcases getElem?_concat_cases hx with ⟨_, hx⟩ | ⟨rfl, rfl⟩
    · exact h.slots k x hx
    · exact h.enqueue
  case contents =>
    intro k x hx hk
    simp only [hlen] at hk
    rcases getElem?_concat_cases hx with ⟨hlt, hx⟩ | ⟨rfl, rfl⟩
    · have hother : x.1 ≠ s.enqueue := by
        rw [h.slots k x hx, h.enqueue]
        intro he
        exact slot_ne hlt (by omega) (congrArg Fin.val he)
      simp only [Function.update_of_ne hother]
      exact h.contents k x hx (by omega)
    · simp only [Function.update_self]
  case popped_eq =>
    rw [take_map_concat Prod.snd _ hb]
    exact h.popped_eq

theorem flags (h : EventInv s) (hr : s.events.erdp = some r) (hlow : addressBits low = 0) :
    EventInv { s with events := { s.events with erdp := some (addressBits r ||| low) } } := by
  have herdp := h.erdp
  rw [hr] at herdp
  refine { h with erdp := ?erdp }
  case erdp =>
    simp only [Option.map_some] at herdp ⊢
    rw [addressBits_flags hlow]
    exact herdp

theorem withWaitList (h : EventInv s) (ids : List Nat) :
    EventInv { s with events := { s.events with waitList := ids } } :=
  { h with }

/-- The software sees its cycle bit exactly when an event is unread. -/
theorem current_cycle_iff (h : EventInv s) :
    s.events.ring.current.cycle = s.events.cycleStateOurs ↔ s.popped.length < s.posted.length := by
  have hroom := h.room
  have hreader := bitAt_reader (n := 16) (by omega) h.behind (by omega)
  rw [TrbRing.current, h.bits, h.index, h.ours]
  exact hreader

theorem current_eq (h : EventInv s) (hlt : s.popped.length < s.posted.length) :
    (s.posted.map Prod.snd)[s.popped.length]? = some s.events.ring.current := by
  have hroom := h.room
  have hx := List.getElem?_eq_getElem hlt
  have hcontents := h.contents _ _ hx (by omega)
  rw [h.slots _ _ hx, ← h.index] at hcontents
  rw [List.getElem?_map, hx, Option.map_some, TrbRing.current, hcontents]

theorem popNone (h : EventInv s) (hle : s.posted.length ≤ s.popped.length) :
    pop s.events = .ok none s.events := by
  apply EventRing.pop_none
  intro hcycle
  exact absurd (h.current_cycle_iff.1 hcycle) (Nat.not_lt.2 hle)

theorem popSome (h : EventInv s) (hlt : s.popped.length < s.posted.length) :
    ∃ events, pop s.events = .ok (some s.events.ring.current) events ∧
      events.erdp.map addressBits = some (BitVec.ofNat 64 s.events.ring.currentPtr) ∧
      events.waitList = s.events.waitList ∧
      EventInv { s with events := events, popped := s.popped ++ [s.events.ring.current] } := by
  obtain ⟨r, hr, _⟩ := Option.map_eq_some_iff.1 h.erdp
  have hptr := addressBits_or (r := r) (addrOf_mod s.events.ring s.events.ring.currentIndex)
  have hlen : (s.popped ++ [s.events.ring.current]).length = s.popped.length + 1 := by
    rw [List.length_append, List.length_singleton]
  have hindex := congrArg Fin.val h.index
  simp only [eventSlot] at hindex
  have hwrap : s.events.ring.currentIndex + 1 = 0 ↔ s.popped.length % 16 = 15 := by
    rw [Fin.ext_iff, TrbRing.val_succ, Fin.val_zero]
    omega
  refine ⟨_, EventRing.pop_some _ (h.current_cycle_iff.2 hlt) hr, congrArg some hptr, rfl, ?_⟩
  refine { h with
    index := ?index
    ours := ?ours
    behind := ?behind
    erdp := ?erdp
    room := ?room
    popped_eq := ?popped_eq }
  case index =>
    simp only [hlen]
    rw [h.index, eventSlot_succ]
  case ours =>
    simp only [hlen]
    by_cases hlast : s.popped.length % 16 = 15
    · have hlap : (s.popped.length + 1) / 16 = s.popped.length / 16 + 1 := by omega
      rw [if_pos (hwrap.2 hlast), h.ours, phase_succ hlap]
    · have hlap : (s.popped.length + 1) / 16 = s.popped.length / 16 := by omega
      rw [if_neg (mt hwrap.1 hlast), h.ours, phase, phase, hlap]
  case behind =>
    simp only [hlen]
    exact hlt
  case erdp =>
    simp only [hlen, Nat.add_sub_cancel, ← h.index]
    exact congrArg some hptr
  case room =>
    have hroom := h.room
    simp only [hlen]
    omega
  case popped_eq =>
    simp only [hlen]
    rw [List.take_add_one, h.current_eq hlt, Option.toList_some, ← h.popped_eq]

theorem step (h : EventInv s) (hstep : EventStep s t) : EventInv t := by
  cases hstep with
  | post hfull => exact h.post _ hfull
  | flags hr hlow => exact h.flags hr hlow
  | pop hpop =>
    rcases Nat.lt_or_ge s.popped.length s.posted.length with hlt | hge
    · obtain ⟨events, hpop', _, _, h'⟩ := h.popSome hlt
      rw [hpop'] at hpop
      cases hpop
      exact h'
    · rw [h.popNone hge] at hpop
      cases hpop
      rw [Option.toList_none, List.append_nil]
      exact h

theorem of_runs (hring : EventRing.initIrs irs (.new base hb) = .ok events)
    (hs : Runs EventStep (.init events) s) : EventInv s :=
  Runs.invariant EventInv (fun _ _ h hstep => h.step hstep) hs (EventInv.init hring)

end EventInv

structure EventsKept (s : EventSystem) : Prop where
  total : ∃ e events, pop s.events = .ok e events
  empty : (∃ events, pop s.events = .ok none events) ↔ s.unread = []
  next : ∀ e events, pop s.events = .ok (some e) events →
    s.unread.head? = some (s.events.ring.currentIndex, e) ∧
    events.erdp.map addressBits = some (BitVec.ofNat 64 s.events.ring.currentPtr)
  inOrder : s.popped ++ s.unread.map Prod.snd = s.posted.map Prod.snd
  intact : ∀ x ∈ s.unread, s.events.ring.trb x.1 = x.2
  safe : ¬s.Full → ∀ x ∈ s.unread, x.1 ≠ s.enqueue

namespace EventInv

variable {s : EventSystem}

theorem unread_getElem? (s : EventSystem) (k : Nat) :
    s.unread[k]? = s.posted[s.popped.length + k]? := List.getElem?_drop

theorem unread_nil (s : EventSystem) : s.unread = [] ↔ s.posted.length ≤ s.popped.length :=
  List.drop_eq_nil_iff

theorem unread_head (h : EventInv s) (hlt : s.popped.length < s.posted.length) :
    s.unread.head? = some (s.events.ring.currentIndex, s.events.ring.current) := by
  have hx := List.getElem?_eq_getElem hlt
  have hcur := h.current_eq hlt
  rw [List.getElem?_map, hx, Option.map_some] at hcur
  have hpair : s.posted[s.popped.length] = (s.events.ring.currentIndex, s.events.ring.current) :=
    Prod.ext ((h.slots _ _ hx).trans h.index.symm) (Option.some.inj hcur)
  rw [List.head?_eq_getElem?, unread_getElem?, Nat.add_zero, hx, hpair]

theorem append_unread (h : EventInv s) :
    s.popped ++ s.unread.map Prod.snd = s.posted.map Prod.snd := by
  have hdrop : s.unread.map Prod.snd = (s.posted.map Prod.snd).drop s.popped.length :=
    List.map_drop
  rw [hdrop]
  exact (congrArg (· ++ _) h.popped_eq).trans (List.take_append_drop _ _)

theorem unread_index (hx : x ∈ s.unread) :
    ∃ k, s.popped.length ≤ k ∧ k < s.posted.length ∧ s.posted[k]? = some x := by
  obtain ⟨j, hj⟩ := List.mem_iff_getElem?.1 hx
  rw [unread_getElem?] at hj
  obtain ⟨hlt, _⟩ := List.getElem?_eq_some_iff.1 hj
  exact ⟨_, Nat.le_add_right _ _, hlt, hj⟩

theorem kept (h : EventInv s) : EventsKept s := by
  have hroom := h.room
  constructor
  case total =>
    rcases Nat.lt_or_ge s.popped.length s.posted.length with hlt | hge
    · obtain ⟨events, hpop, _⟩ := h.popSome hlt
      exact ⟨_, events, hpop⟩
    · exact ⟨none, _, h.popNone hge⟩
  case empty =>
    rw [unread_nil]
    constructor
    · rintro ⟨events, hpop⟩
      apply Nat.le_of_not_lt
      intro hlt
      obtain ⟨events', hpop', _⟩ := h.popSome hlt
      rw [hpop'] at hpop
      cases hpop
    · intro hge
      exact ⟨_, h.popNone hge⟩
  case next =>
    intro e events hpop
    rcases Nat.lt_or_ge s.popped.length s.posted.length with hlt | hge
    · obtain ⟨events', hpop', herdp, _⟩ := h.popSome hlt
      rw [hpop'] at hpop
      cases hpop
      exact ⟨h.unread_head hlt, herdp⟩
    · rw [h.popNone hge] at hpop
      cases hpop
  case inOrder => exact h.append_unread
  case intact =>
    intro x hx
    obtain ⟨k, hk, hlt, hget⟩ := unread_index hx
    exact h.contents k x hget (by omega)
  case safe =>
    intro hfull x hx
    obtain ⟨k, hk, hlt, hget⟩ := unread_index hx
    have hne : s.posted.length ≠ s.popped.length - 1 + 15 := fun he => hfull (h.full_iff.2 he)
    rw [h.slots k x hget, h.enqueue]
    intro he
    exact slot_ne hlt (by omega) (congrArg Fin.val he)

end EventInv

theorem event_ring_keeps (hring : EventRing.initIrs irs (.new base hb) = .ok events)
    (hs : Runs EventStep (.init events) s) : EventsKept s :=
  (EventInv.of_runs hring hs).kept

theorem EventInv.not_full {s : EventSystem} (h : EventInv s)
    (hnear : s.posted.length ≤ s.popped.length + 13) : ¬s.Full := by
  rw [h.full_iff]
  omega

theorem EventInv.reads {s : EventSystem} (h : EventInv s)
    (hread : s.popped.length = s.posted.length) (e : GenericTrbEntry) (n : Nat) :
    ∃ t, Runs EventStep s t ∧ EventInv t ∧ t.popped.length = t.posted.length ∧
      t.posted.length = s.posted.length + n := by
  induction n with
  | zero => exact ⟨s, .refl, h, hread, rfl⟩
  | succ n ih =>
    obtain ⟨t, hruns, ht, hsame, hlen⟩ := ih
    have hfull : ¬t.Full := ht.not_full (by omega)
    have hposted := t.length_posted e
    have hlt : (t.post e).popped.length < (t.post e).posted.length :=
      hsame.trans_lt (hposted ▸ Nat.lt_succ_self _)
    obtain ⟨events, hpop, _, _, hnext⟩ := (ht.post e hfull).popSome hlt
    refine ⟨_, (hruns.tail (.post hfull)).tail (.pop hpop), hnext, ?_, ?_⟩
    · exact List.length_append.trans ((congrArg (· + 1) hsame).trans hposted.symm)
    · rw [← Nat.add_assoc, ← hlen]
      exact hposted

/-- Of twenty events eighteen have been read: both sides have gone around the ring once. -/
theorem event_ring_keeps_wrapped : ∃ events s, EventRing.initIrs 0 (.new 4096 rfl) = .ok events ∧
    Runs EventStep (.init events) s ∧ s.posted.length = 20 ∧ s.unread.length = 2 ∧
    s.events.ring.currentIndex = 2 ∧ EventsKept s := by
  have hring : EventRing.initIrs 0 (.new 4096 rfl) = .ok _ := if_pos (by decide)
  obtain ⟨s, hruns, h, hread, hlen⟩ :=
    (EventInv.init hring).reads rfl ⟨4096, 0x1000000, 0x8400⟩ 18
  have hlen : s.posted.length = 18 := hlen.trans (Nat.zero_add 18)
  have hfirst : ¬s.Full := h.not_full (by omega)
  have hnext := h.post ⟨8192, 0x1000000, 0x8400⟩ hfirst
  have hone := s.length_posted ⟨8192, 0x1000000, 0x8400⟩
  have hsecond : ¬(s.post ⟨8192, 0x1000000, 0x8400⟩).Full := by
    apply hnext.not_full
    rw [hone, EventSystem.post, hread]
    omega
  have hlast := hnext.post ⟨12288, 0x1000000, 0x8400⟩ hsecond
  have hposted := (EventSystem.length_posted _ ⟨12288, 0x1000000, 0x8400⟩).trans
    (congrArg (· + 1) (hone.trans (congrArg (· + 1) hlen)))
  have hpopped : s.popped.length = 18 := hread.trans hlen
  have hall := (hruns.tail (.post hfirst)).tail
    (EventStep.post (e := ⟨12288, 0x1000000, 0x8400⟩) hsecond)
  refine ⟨_, _, hring, hall, hposted, ?_, ?_, event_ring_keeps hring hall⟩
  · rw [EventSystem.unread, List.length_drop, hposted]
    exact congrArg (20 - ·) hpopped
  · exact hlast.index.trans ((congrArg eventSlot hpopped).trans (by decide))

end Wasabi
