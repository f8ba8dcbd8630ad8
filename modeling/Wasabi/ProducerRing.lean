import Wasabi.CommandRing
import Wasabi.CycleRing
import Wasabi.Runs

namespace Wasabi
set_option autoImplicit true

open CommandRing (pushWrite pushAdvance pushLink push)

/-- The value that `set_cmd_ring_ctrl` writes to CRCR: the ring and the consumer cycle state. -/
def setCmdRingCtrl (ring : CommandRing) : Nat := ring.ringPhysAddr ||| 1

structure Consumer where
  dequeue : Fin 16
  cycle : Bool
  deriving DecidableEq, Repr

namespace Consumer

/-- The controller reads its start from the pointer and the cycle state in CRCR. -/
def start (crcr base : Nat) : Consumer :=
  ⟨Fin.ofNat 16 ((crcr / 64 * 64 - base) / 16), crcr % 2 == 1⟩

def toggle (trb : GenericTrbEntry) : Bool := trb.control.getLsbD 1

/-- One step of the controller: nothing without the right cycle bit; otherwise it follows a Link TRB
or takes the entry. -/
def next (c : Consumer) (ring : TrbRing) : Option (Option (Nat × GenericTrbEntry) × Consumer) :=
  let trb := ring.trb c.dequeue
  if trb.cycle ≠ c.cycle then none
  else if trb.kind = TrbType.link.value then
    some (none, ⟨0, if toggle trb then !c.cycle else c.cycle⟩)
  else some (some (ring.addrOf c.dequeue, trb), ⟨c.dequeue + 1, c.cycle⟩)

theorem start_eq (ring : CommandRing) :
    start (setCmdRingCtrl ring) ring.ring.base = ⟨0, true⟩ := by
  have hbase := ring.ring.aligned
  have hor : ring.ring.base ||| 1 = ring.ring.base + 1 := lor_eq_add hbase (by decide)
  have hidx : ((ring.ring.base + 1) / 64 * 64 - ring.ring.base) / 16 = 0 := by omega
  have hcyc : (ring.ring.base + 1) % 2 = 1 := by omega
  rw [start, setCmdRingCtrl, CommandRing.ringPhysAddr, hor, hidx, hcyc]
  rfl

end Consumer

/-- How far the running `push` is, with the address that it is going to return. -/
inductive PushPc where
  | idle
  | written (ptr : Nat)
  | flipped (ptr : Nat)
  deriving DecidableEq, Repr

def PushPc.inFlight : PushPc → Nat
  | written _ => 1
  | _ => 0

/-- The ring in memory, the running `push`, the controller, and what has been pushed and taken with
the address of its slot. -/
structure RingSystem where
  ring : CommandRing
  pc : PushPc
  consumer : Consumer
  pushed : List (Nat × GenericTrbEntry)
  taken : List (Nat × GenericTrbEntry)

namespace RingSystem

def init (ring : CommandRing) : RingSystem :=
  ⟨ring, .idle, .start (setCmdRingCtrl ring) ring.ring.base, [], []⟩

def unconsumed (s : RingSystem) : Nat := s.pushed.length - s.taken.length

end RingSystem

/-- The stores of a `push` and the steps of the controller, in any order. A `push` only starts while
fewer than `lim` entries wait for the controller. -/
inductive RingStep (lim : Nat) : RingSystem → RingSystem → Prop where
  | write : s.pc = .idle → src.kind ≠ TrbType.link.value → s.unconsumed < lim →
      pushWrite src s.ring = .ok ptr ring →
      RingStep lim s { s with ring := ring, pc := .written ptr, pushed := s.pushed ++ [(ptr, src)] }
  | advance : s.pc = .written ptr → pushAdvance s.ring = .ok () ring →
      RingStep lim s { s with ring := ring, pc := .flipped ptr }
  | link : s.pc = .flipped ptr → pushLink s.ring = .ok () ring →
      RingStep lim s { s with ring := ring, pc := .idle }
  | take : s.consumer.next s.ring.ring = some (entry, controller) →
      RingStep lim s { s with consumer := controller, taken := s.taken ++ entry.toList }

def seen (x : Nat × GenericTrbEntry) : Nat × GenericTrbEntry := (x.1, x.2.contents)

def slotOf (k : Nat) : Fin 16 := ⟨k % 15, by omega⟩

/-- The invariant. The software is in lap `w` and the controller in lap `v` of the ring. -/
structure RingInv (lim : Nat) (s : RingSystem) (w v : Nat) : Prop where
  ours : s.ring.cycleStateOurs = !phase 16 (16 * w + s.ring.ring.currentIndex)
  bits : ∀ i, (s.ring.ring.trb i).cycle = bitAt 16 (16 * w + s.ring.ring.currentIndex) i
  last : s.ring.ring.currentIndex.val = 15 → ∃ ptr, s.pc = .flipped ptr
  linkKind : (s.ring.ring.trb 15).kind = TrbType.link.value
  linkToggle : Consumer.toggle (s.ring.ring.trb 15) = true
  kinds : ∀ i : Fin 16, i.val < 15 → (s.ring.ring.trb i).kind ≠ TrbType.link.value
  cycle : s.consumer.cycle = phase 16 (16 * v + s.consumer.dequeue)
  pushedLen : s.pushed.length = 15 * w + s.ring.ring.currentIndex + s.pc.inFlight
  takenLen : s.taken.length = 15 * v + s.consumer.dequeue
  behind : 15 * v + s.consumer.dequeue.val ≤ 15 * w + s.ring.ring.currentIndex
  laps : v ≤ w
  room : s.pushed.length ≤ s.taken.length + lim
  addrs : ∀ k x, s.pushed[k]? = some x → x.1 = s.ring.ring.addrOf (slotOf k)
  contents : ∀ k x, s.pushed[k]? = some x → s.pushed.length ≤ k + 15 →
    (s.ring.ring.trb (slotOf k)).contents = x.2.contents
  taken_eq : s.taken.map seen = (s.pushed.map seen).take s.taken.length
  ptr_eq : ∀ ptr, s.pc = .written ptr ∨ s.pc = .flipped ptr →
    s.pushed.getLast?.map Prod.fst = some ptr

namespace RingInv

variable {lim w v : Nat} {s : RingSystem}

theorem position_mod (s : RingSystem) (w : Nat) :
    (16 * w + s.ring.ring.currentIndex.val) % 16 = s.ring.ring.currentIndex.val := by
  have h := s.ring.ring.currentIndex.isLt
  omega

/-- The software always finds the cycle bit it waits for: it has written the bit itself. -/
theorem current_cycle (h : RingInv lim s w v) :
    s.ring.ring.current.cycle = s.ring.cycleStateOurs := by
  have hb := h.bits s.ring.ring.currentIndex
  have hn := bitAt_next 16 (16 * w + s.ring.ring.currentIndex.val)
  rw [position_mod] at hn
  rw [TrbRing.current, hb, hn, h.ours]

theorem currentIndex_lt (h : RingInv lim s w v) (hpc : ∀ ptr, s.pc ≠ .flipped ptr) :
    s.ring.ring.currentIndex.val < 15 := by
  have hlt := s.ring.ring.currentIndex.isLt
  have hne : s.ring.ring.currentIndex.val ≠ 15 := by
    intro he
    obtain ⟨ptr, hptr⟩ := h.last he
    exact hpc ptr hptr
  omega

theorem init (hring : CommandRing.default base hb = .ok ring) :
    RingInv lim (RingSystem.init ring) 0 0 := by
  rw [CommandRing.default_eq] at hring
  cases hring
  have hstart := Consumer.start_eq (CommandRing.fresh base hb)
  constructor
  case ours => exact congrArg not (phase_zero 16).symm
  case bits =>
    intro i
    apply Eq.trans ?_ (bitAt_zero 16 i).symm
    by_cases hi : i = 15
    · subst hi
      simp only [RingSystem.init, CommandRing.fresh, Function.update_self, GenericTrbEntry.cycle]
      decide
    · simp only [RingSystem.init, CommandRing.fresh, Function.update_of_ne hi]
      decide
  case last =>
    intro h
    cases h
  case linkKind =>
    simp only [RingSystem.init, CommandRing.fresh, Function.update_self, GenericTrbEntry.kind]
    decide
  case linkToggle =>
    simp only [RingSystem.init, CommandRing.fresh, Function.update_self, Consumer.toggle]
    decide
  case kinds =>
    intro i hi
    have hne : i ≠ 15 := by
      rintro rfl
      exact absurd hi (by decide)
    simp only [RingSystem.init, CommandRing.fresh, Function.update_of_ne hne]
    decide
  case cycle =>
    rw [RingSystem.init, hstart]
    exact (phase_zero 16).symm
  case pushedLen => rfl
  case takenLen =>
    rw [RingSystem.init, hstart]
    rfl
  case behind =>
    rw [RingSystem.init, hstart]
    exact Nat.le_refl 0
  case laps => exact Nat.le_refl 0
  case room => exact Nat.zero_le _
  case addrs =>
    intro k x hx
    cases hx
  case contents =>
    intro k x hx
    cases hx
  case taken_eq => rfl
  case ptr_eq =>
    intro ptr hptr
    rcases hptr with hptr | hptr <;> cases hptr

theorem slot_pushed (h : RingInv lim s w v) (hpc : s.pc = .idle) :
    slotOf s.pushed.length = s.ring.ring.currentIndex := by
  have hidx := h.currentIndex_lt (by simp [hpc])
  have hlen := h.pushedLen
  rw [hpc] at hlen
  apply Fin.ext
  simp only [slotOf, hlen, PushPc.inFlight]
  omega

theorem slotOf_lt (k : Nat) : (slotOf k).val < 15 := Nat.mod_lt k (by omega)

theorem slotOf_ne_last (k : Nat) : slotOf k ≠ 15 := by
  intro he
  have h := slotOf_lt k
  rw [he] at h
  exact absurd h (by decide)

theorem slotOf_ne {k p : Nat} (hk : k < p) (hp : p < k + 15) : slotOf k ≠ slotOf p := by
  intro he
  exact slot_ne hk hp (congrArg Fin.val he)

theorem kinds_update {trb : Fin 16 → GenericTrbEntry}
    (hkinds : ∀ i : Fin 16, i.val < 15 → (trb i).kind ≠ TrbType.link.value)
    (hentry : entry.kind ≠ TrbType.link.value) (j i : Fin 16) (hi : i.val < 15) :
    (Function.update trb j entry i).kind ≠ TrbType.link.value := by
  by_cases he : i = j
  · subst he
    rwa [Function.update_self]
  · rw [Function.update_of_ne he]
    exact hkinds i hi

theorem bits_rewrite (h : RingInv lim s w v) (src : GenericTrbEntry) (i : Fin 16) :
    (Function.update s.ring.ring.trb s.ring.ring.currentIndex
      (src.withCycle s.ring.cycleStateOurs) i).cycle =
        bitAt 16 (16 * w + s.ring.ring.currentIndex) i := by
  by_cases hi : i = s.ring.ring.currentIndex
  · subst hi
    rw [Function.update_self, GenericTrbEntry.withCycle_cycle, ← h.current_cycle]
    exact h.bits _
  · rw [Function.update_of_ne hi]
    exact h.bits i

theorem contents_push (h : RingInv lim s w v) (hpc : s.pc = .idle) {b : Bool}
    (hx : (s.pushed ++ [(ptr, src)])[k]? = some x) (hk : s.pushed.length + 1 ≤ k + 15) :
    (Function.update s.ring.ring.trb s.ring.ring.currentIndex (src.withCycle b)
      (slotOf k)).contents = x.2.contents := by
  have hslot := h.slot_pushed hpc
  rcases getElem?_concat_cases hx with ⟨hlt, hx⟩ | ⟨rfl, rfl⟩
  · have hne : slotOf k ≠ s.ring.ring.currentIndex := by
      rw [← hslot]
      exact slotOf_ne hlt (by omega)
    rw [Function.update_of_ne hne]
    exact h.contents k x hx (by omega)
  · rw [hslot, Function.update_self]
    exact GenericTrbEntry.contents_withCycle _ _

theorem taken_le (h : RingInv lim s w v) : s.taken.length ≤ s.pushed.length := by
  have hb := h.behind
  have hlaps := h.laps
  rw [h.takenLen, h.pushedLen]
  omega

theorem last_ne (h : RingInv lim s w v) (hpc : ∀ ptr, s.pc ≠ .flipped ptr) :
    (15 : Fin 16) ≠ s.ring.ring.currentIndex := by
  intro he
  have hidx := h.currentIndex_lt hpc
  rw [← he] at hidx
  exact absurd hidx (by decide)

theorem write (h : RingInv lim s w v) (hpc : s.pc = .idle) (hkind : src.kind ≠ TrbType.link.value)
    (hroom : s.unconsumed < lim) (hok : pushWrite src s.ring = .ok ptr ring) :
    RingInv lim { s with ring := ring, pc := .written ptr, pushed := s.pushed ++ [(ptr, src)] }
      w v := by
  rw [CommandRing.pushWrite_eq _ _ h.current_cycle] at hok
  cases hok
  have hidx := h.currentIndex_lt (by simp [hpc])
  have h15 := h.last_ne (by simp [hpc])
  have hlen := h.pushedLen
  rw [hpc] at hlen
  constructor
  case ours => exact h.ours
  case bits => exact h.bits_rewrite src
  case last =>
    intro he
    exact absurd he (Nat.ne_of_lt hidx)
  case linkKind =>
    simp only [Function.update_of_ne h15]
    exact h.linkKind
  case linkToggle =>
    simp only [Function.update_of_ne h15]
    exact h.linkToggle
  case kinds =>
    rw [← src.withCycle_kind s.ring.cycleStateOurs] at hkind
    exact kinds_update h.kinds hkind _
  case cycle => exact h.cycle
  case pushedLen => simp only [List.length_append, List.length_singleton, hlen, PushPc.inFlight]
  case takenLen => exact h.takenLen
  case behind => exact h.behind
  case laps => exact h.laps
  case room =>
    simp only [List.length_append, List.length_singleton]
    unfold RingSystem.unconsumed at hroom
    omega
  case addrs =>
    intro k x hx
    rcases getElem?_concat_cases hx with ⟨_, hx⟩ | ⟨rfl, rfl⟩
    · exact h.addrs k x hx
    · rw [h.slot_pushed hpc]
      rfl
  case contents =>
    intro k x hx hk
    rw [List.length_append, List.length_singleton] at hk
    exact h.contents_push hpc hx hk
  case taken_eq =>
    rw [take_map_concat seen _ h.taken_le]
    exact h.taken_eq
  case ptr_eq =>
    intro ptr' hptr
    rw [List.getLast?_append, List.getLast?_singleton]
    rcases hptr with hptr | hptr
    · cases hptr
      rfl
    · cases hptr

theorem succ_val {i : Fin 16} (h : i.val < 15) : (i + 1).val = i.val + 1 := by
  rw [TrbRing.val_succ]
  omega

theorem bits_update {trb : Fin 16 → GenericTrbEntry}
    (hbits : ∀ i, (trb i).cycle = bitAt 16 (16 * w + j) i) (hj : j < 16)
    (hentry : entry.cycle = phase 16 (16 * w + j)) (i : Fin 16) :
    (Function.update trb ⟨j, hj⟩ entry i).cycle = bitAt 16 (16 * w + j + 1) i := by
  have hmod : (16 * w + j) % 16 = j := by omega
  rw [bitAt_succ (by omega) i.isLt, hmod]
  by_cases hi : i = ⟨j, hj⟩
  · subst hi
    rw [Function.update_self, if_pos rfl, hentry]
  · have hne : i.val ≠ j := by
      intro he
      exact hi (Fin.ext he)
    rw [Function.update_of_ne hi, if_neg hne, hbits]

theorem handOver_cycle (h : RingInv lim s w v) :
    (s.ring.ring.current.withCycle (!s.ring.cycleStateOurs)).cycle =
      phase 16 (16 * w + s.ring.ring.currentIndex) := by
  rw [GenericTrbEntry.withCycle_cycle, h.ours, Bool.not_not]

theorem advance (h : RingInv lim s w v) (hpc : s.pc = .written ptr)
    (hok : pushAdvance s.ring = .ok () ring) :
    RingInv lim { s with ring := ring, pc := .flipped ptr } w v := by
  rw [CommandRing.pushAdvance_eq _ h.current_cycle] at hok
  cases hok
  have hidx := h.currentIndex_lt (by simp [hpc])
  have hlen := h.pushedLen
  rw [hpc] at hlen
  have hsucc := succ_val hidx
  have h15 := h.last_ne (by simp [hpc])
  constructor
  case ours =>
    simp only [hsucc]
    rw [phase_lap (by omega), h.ours, phase_lap (by omega)]
  case bits =>
    simp only [hsucc]
    exact bits_update h.bits _ h.handOver_cycle
  case last =>
    intro _
    exact ⟨ptr, rfl⟩
  case linkKind =>
    simp only [Function.update_of_ne h15]
    exact h.linkKind
  case linkToggle =>
    simp only [Function.update_of_ne h15]
    exact h.linkToggle
  case kinds =>
    have hkind := h.kinds _ hidx
    rw [← GenericTrbEntry.withCycle_kind _ (!s.ring.cycleStateOurs)] at hkind
    exact kinds_update h.kinds hkind _
  case cycle => exact h.cycle
  case pushedLen =>
    simp only [hsucc, hlen]
    rfl
  case takenLen => exact h.takenLen
  case behind =>
    have hb := h.behind
    simp only [hsucc]
    omega
  case laps => exact h.laps
  case room => exact h.room
  case addrs => exact h.addrs
  case contents =>
    intro k x hx hk
    have hc := h.contents k x hx hk
    by_cases he : slotOf k = s.ring.ring.currentIndex
    · rw [he] at hc
      simp only [he, Function.update_self]
      rw [GenericTrbEntry.contents_withCycle]
      exact hc
    · simp only [Function.update_of_ne he]
      exact hc
  case taken_eq => exact h.taken_eq
  case ptr_eq =>
    intro ptr' hptr
    rcases hptr with hptr | hptr
    · cases hptr
    · cases hptr
      exact h.ptr_eq ptr (.inl hpc)

theorem link_of_ne (h : RingInv lim s w v) (hidx : s.ring.ring.currentIndex.val ≠ 15)
    (hpc : s.pc = .flipped ptr) : RingInv lim { s with pc := .idle } w v := by
  have hlen := h.pushedLen
  rw [hpc] at hlen
  refine { h with last := ?last, pushedLen := ?pushedLen, ptr_eq := ?ptr_eq }
  case last =>
    intro he
    exact absurd he hidx
  case pushedLen => exact hlen
  case ptr_eq =>
    intro ptr' hptr
    rcases hptr with hptr | hptr <;> cases hptr

theorem link_of_eq (h : RingInv lim s w v) (hidx : s.ring.ring.currentIndex = 15)
    (hpc : s.pc = .flipped ptr) :
    RingInv lim { s with
      ring := ⟨{ s.ring.ring with
        trb := Function.update s.ring.ring.trb s.ring.ring.currentIndex
          (s.ring.ring.current.withCycle (!s.ring.cycleStateOurs))
        currentIndex := s.ring.ring.currentIndex + 1 }, !s.ring.cycleStateOurs⟩
      pc := .idle } (w + 1) v := by
  have hlen := h.pushedLen
  have hval : s.ring.ring.currentIndex.val = 15 := congrArg Fin.val hidx
  have hbits := h.bits
  have hours := h.ours
  have hover := h.handOver_cycle
  have hb := h.behind
  rw [hpc, hval] at hlen
  rw [hval] at hbits hours hover hb
  have hzero : (s.ring.ring.currentIndex + 1).val = 0 := by
    rw [hidx]
    rfl
  have hslot : ∀ k, slotOf k ≠ s.ring.ring.currentIndex := by
    intro k
    rw [hidx]
    exact slotOf_ne_last k
  constructor
  case ours =>
    have hlap : (16 * (w + 1) + 0) / 16 = (16 * w + 15) / 16 + 1 := by omega
    simp only [hzero]
    rw [hours, phase_succ hlap]
  case bits =>
    simp only [hzero]
    simp only [hidx]
    exact bits_update hbits (by omega) hover
  case last =>
    intro he
    rw [hzero] at he
    cases he
  case linkKind =>
    simp only [hidx, Function.update_self, GenericTrbEntry.withCycle_kind, TrbRing.current]
    exact h.linkKind
  case linkToggle =>
    simp only [hidx, Function.update_self, Consumer.toggle, TrbRing.current]
    rw [GenericTrbEntry.withCycle_getLsbD, if_neg (by omega)]
    exact h.linkToggle
  case kinds =>
    intro i hi
    have hne : i ≠ s.ring.ring.currentIndex := by
      rintro rfl
      omega
    simp only [Function.update_of_ne hne]
    exact h.kinds i hi
  case cycle => exact h.cycle
  case pushedLen =>
    simp only [hzero, hlen, PushPc.inFlight]
    omega
  case takenLen => exact h.takenLen
  case behind =>
    simp only [hzero]
    omega
  case laps => exact Nat.le_succ_of_le h.laps
  case room => exact h.room
  case addrs => exact h.addrs
  case contents =>
    intro k x hx hk
    simp only [Function.update_of_ne (hslot k)]
    exact h.contents k x hx hk
  case taken_eq => exact h.taken_eq
  case ptr_eq =>
    intro ptr' hptr
    rcases hptr with hptr | hptr <;> cases hptr

/-- An entry with the cycle bit that the controller waits for has been handed over and not been
taken. -/
theorem ahead (h : RingInv lim s w v) (hlim : lim ≤ 15)
    (hc : (s.ring.ring.trb s.consumer.dequeue).cycle = s.consumer.cycle) :
    16 * v + s.consumer.dequeue.val < 16 * w + s.ring.ring.currentIndex := by
  have hlaps := h.laps
  have hb := h.behind
  have hroom := h.room
  have hidx := s.ring.ring.currentIndex.isLt
  have hdeq := s.consumer.dequeue.isLt
  rw [h.pushedLen, h.takenLen] at hroom
  rw [h.bits, h.cycle] at hc
  have hmod : (16 * v + s.consumer.dequeue.val) % 16 = s.consumer.dequeue := by omega
  rcases Nat.lt_or_ge (16 * v + s.consumer.dequeue.val + 16)
    (16 * w + s.ring.ring.currentIndex) with hfar | hnear
  · -- the controller waits at a Link TRB that has already been handed over a second time
    have hlast : s.consumer.dequeue.val = 15 := by omega
    have hfirst : s.ring.ring.currentIndex.val = 0 := by omega
    have hw : w = v + 2 := by omega
    rw [hlast, hfirst, bitAt, if_neg (by omega), phase_lap (by omega), phase_lap (by omega), hw,
      Nat.add_mod_right] at hc
    cases hv : v % 2 == 0 <;> rw [hv] at hc <;> cases hc
  · have hle : 16 * v + s.consumer.dequeue.val ≤ 16 * w + s.ring.ring.currentIndex := by omega
    have hreader := bitAt_reader (n := 16) (by omega) hle hnear
    rw [hmod] at hreader
    exact hreader.1 hc

theorem followLink (h : RingInv lim s w v) (hdeq : s.consumer.dequeue.val = 15)
    (hahead : 16 * v + s.consumer.dequeue.val < 16 * w + s.ring.ring.currentIndex) :
    RingInv lim { s with consumer := ⟨0, !s.consumer.cycle⟩ } w (v + 1) := by
  have hidx := s.ring.ring.currentIndex.isLt
  have htaken := h.takenLen
  have hb := h.behind
  have hcycle := h.cycle
  rw [hdeq] at htaken hb hcycle
  refine { h with cycle := ?cycle, takenLen := ?takenLen, behind := ?behind, laps := ?laps }
  case cycle =>
    have hnext : (16 * (v + 1) + (0 : Fin 16).val) / 16 = (16 * v + 15) / 16 + 1 := by
      rw [Fin.val_zero]
      omega
    rw [phase_succ hnext]
    exact congrArg not hcycle
  case takenLen =>
    simp only [Fin.val_zero]
    omega
  case behind =>
    simp only [Fin.val_zero]
    omega
  case laps => omega

/-- The entry under the controller is the oldest one that it has not taken. -/
theorem pushed_taken (h : RingInv lim s w v) (hlim : lim ≤ 15)
    (hdeq : s.consumer.dequeue.val < 15)
    (hahead : 16 * v + s.consumer.dequeue.val < 16 * w + s.ring.ring.currentIndex) :
    (s.pushed.map seen)[s.taken.length]? = some (seen
      (s.ring.ring.addrOf s.consumer.dequeue, s.ring.ring.trb s.consumer.dequeue)) := by
  have hlaps := h.laps
  have hroom := h.room
  have htaken := h.takenLen
  have hidx := s.ring.ring.currentIndex.isLt
  have hslot : slotOf s.taken.length = s.consumer.dequeue := by
    apply Fin.ext
    simp only [slotOf, htaken]
    omega
  have hlt : s.taken.length < s.pushed.length := by
    rw [h.pushedLen, htaken]
    omega
  have hx := List.getElem?_eq_getElem hlt
  have haddr := h.addrs _ _ hx
  have hcontents := h.contents _ _ hx (by omega)
  rw [hslot] at haddr hcontents
  rw [List.getElem?_map, hx, Option.map_some, seen, seen, haddr, hcontents]

theorem takeEntry (h : RingInv lim s w v) (hlim : lim ≤ 15)
    (hdeq : s.consumer.dequeue.val < 15)
    (hahead : 16 * v + s.consumer.dequeue.val < 16 * w + s.ring.ring.currentIndex) :
    RingInv lim { s with
      consumer := ⟨s.consumer.dequeue + 1, s.consumer.cycle⟩
      taken := s.taken ++
        [(s.ring.ring.addrOf s.consumer.dequeue, s.ring.ring.trb s.consumer.dequeue)] } w v := by
  have hlaps := h.laps
  have hidx := s.ring.ring.currentIndex.isLt
  have hsucc := succ_val hdeq
  have htaken := h.takenLen
  refine { h with
    cycle := ?cycle
    takenLen := ?takenLen
    behind := ?behind
    room := ?room
    taken_eq := ?taken_eq }
  case cycle =>
    simp only [hsucc]
    rw [phase_lap (by omega), h.cycle, phase_lap (by omega)]
  case takenLen =>
    simp only [List.length_append, List.length_singleton, hsucc, htaken]
    rfl
  case behind =>
    simp only [hsucc]
    omega
  case room =>
    have hroom := h.room
    simp only [List.length_append, List.length_singleton]
    omega
  case taken_eq =>
    have hnext := h.pushed_taken hlim hdeq hahead
    simp only [List.map_append, List.length_append, List.map_cons, List.map_nil,
      List.length_singleton]
    rw [List.take_add_one, hnext, Option.toList_some, ← h.taken_eq]

theorem take (h : RingInv lim s w v) (hlim : lim ≤ 15)
    (hnext : s.consumer.next s.ring.ring = some (entry, c)) :
    ∃ v', RingInv lim { s with consumer := c, taken := s.taken ++ entry.toList } w v' ∧
      16 * v' + c.dequeue.val = 16 * v + s.consumer.dequeue + 1 := by
  rw [Consumer.next] at hnext
  split at hnext
  · cases hnext
  · next hcyc =>
    have hahead := h.ahead hlim (not_not.1 hcyc)
    split at hnext
    · next hlink =>
      have hdeq : s.consumer.dequeue.val = 15 := by
        have hlt := s.consumer.dequeue.isLt
        have hge : ¬s.consumer.dequeue.val < 15 := by
          intro hlt
          exact h.kinds _ hlt hlink
        omega
      have hlast : s.consumer.dequeue = 15 := Fin.ext hdeq
      have htoggle := h.linkToggle
      rw [← hlast] at htoggle
      rw [if_pos htoggle] at hnext
      cases hnext
      have hmeasure : 16 * (v + 1) + (0 : Fin 16).val = 16 * v + s.consumer.dequeue + 1 := by
        rw [Fin.val_zero]
        omega
      rw [Option.toList_none, List.append_nil]
      exact ⟨v + 1, h.followLink hdeq hahead, hmeasure⟩
    · next hlink =>
      have hdeq : s.consumer.dequeue.val < 15 := by
        have hlt := s.consumer.dequeue.isLt
        have hne : s.consumer.dequeue.val ≠ 15 := by
          intro he
          have hlast : s.consumer.dequeue = 15 := Fin.ext he
          have h15 := h.linkKind
          rw [← hlast] at h15
          exact hlink h15
        omega
      have hmeasure : 16 * v + (s.consumer.dequeue + 1).val =
          16 * v + s.consumer.dequeue + 1 := by
        rw [succ_val hdeq]
        rfl
      cases hnext
      exact ⟨v, h.takeEntry hlim hdeq hahead, hmeasure⟩

theorem step (hlim : lim ≤ 15) (h : RingInv lim s w v) (hstep : RingStep lim s t) :
    ∃ w v, RingInv lim t w v := by
  cases hstep with
  | write hpc hkind hroom hok => exact ⟨w, v, h.write hpc hkind hroom hok⟩
  | advance hpc hok => exact ⟨w, v, h.advance hpc hok⟩
  | link hpc hok =>
    by_cases hidx : s.ring.ring.currentIndex = 15
    · rw [CommandRing.pushLink_of_eq _ _ h.current_cycle] at hok
      · cases hok
        exact ⟨w + 1, v, h.link_of_eq hidx hpc⟩
      · rw [TrbRing.current, hidx]
        exact h.linkKind
    · have hval : s.ring.ring.currentIndex.val ≠ 15 := by
        intro he
        exact hidx (Fin.ext he)
      rw [CommandRing.pushLink_of_ne _ (h.kinds _ (by omega))] at hok
      cases hok
      exact ⟨w, v, h.link_of_ne hval hpc⟩
  | take hnext =>
    obtain ⟨v', h', _⟩ := h.take hlim hnext
    exact ⟨w, v', h'⟩

end RingInv

end Wasabi
