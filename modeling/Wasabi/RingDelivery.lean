import Wasabi.ProducerRing
import Mathlib.Data.List.Induction

namespace Wasabi
set_option autoImplicit true

open CommandRing (pushWrite pushAdvance pushLink push)

namespace RingInv

variable {lim w v : Nat} {s : RingSystem}

theorem write_ok (h : RingInv lim s w v) (src : GenericTrbEntry) :
    ∃ ring, pushWrite src s.ring = .ok s.ring.ring.currentPtr ring :=
  ⟨_, CommandRing.pushWrite_eq _ _ h.current_cycle⟩

theorem advance_ok (h : RingInv lim s w v) : ∃ ring, pushAdvance s.ring = .ok () ring :=
  ⟨_, CommandRing.pushAdvance_eq _ h.current_cycle⟩

theorem link_ok (h : RingInv lim s w v) : ∃ ring, pushLink s.ring = .ok () ring := by
  by_cases hkind : s.ring.ring.current.kind = TrbType.link.value
  · exact ⟨_, CommandRing.pushLink_of_eq _ hkind h.current_cycle⟩
  · exact ⟨_, CommandRing.pushLink_of_ne _ hkind⟩

/-- The Link TRB is the only entry that the last store of a `push` can touch. -/
theorem link_frame (h : RingInv lim s w v) (hok : pushLink s.ring = .ok () ring)
    (hi : i.val < 15) : ring.ring.trb i = s.ring.ring.trb i := by
  by_cases hkind : s.ring.ring.current.kind = TrbType.link.value
  · rw [CommandRing.pushLink_of_eq _ hkind h.current_cycle] at hok
    cases hok
    have hne : i ≠ s.ring.ring.currentIndex := by
      rintro rfl
      exact h.kinds _ hi hkind
    exact Function.update_of_ne hne _ _
  · rw [CommandRing.pushLink_of_ne _ hkind] at hok
    cases hok
    rfl

theorem link_last (h : RingInv lim s w v) (hok : pushLink s.ring = .ok () ring) :
    ring.ring.trb 15 = if s.ring.ring.currentIndex = 15 then
      (s.ring.ring.trb 15).withCycle (!s.ring.cycleStateOurs) else s.ring.ring.trb 15 := by
  by_cases hlast : s.ring.ring.currentIndex = 15
  · have hcurrent : s.ring.ring.current = s.ring.ring.trb 15 := by rw [TrbRing.current, hlast]
    have hkind : s.ring.ring.current.kind = TrbType.link.value := by
      rw [hcurrent]
      exact h.linkKind
    rw [CommandRing.pushLink_of_eq _ hkind h.current_cycle] at hok
    cases hok
    rw [if_pos hlast, ← hcurrent]
    dsimp only
    rw [hlast, Function.update_self]
  · have hidx : s.ring.ring.currentIndex.val < 15 := by
      have hlt := s.ring.ring.currentIndex.isLt
      have hne : s.ring.ring.currentIndex.val ≠ 15 := fun he => hlast (Fin.ext he)
      omega
    rw [CommandRing.pushLink_of_ne _ (h.kinds _ hidx)] at hok
    cases hok
    rw [if_neg hlast]

/-- A `push` that nothing interrupts is its three stores. -/
theorem push_ok (h : RingInv lim s w v) (hpc : s.pc = .idle)
    (hkind : src.kind ≠ TrbType.link.value) (hroom : s.unconsumed < lim) :
    ∃ ring, push src s.ring = .ok s.ring.ring.currentPtr ring ∧
      Runs (RingStep lim) s { s with
        ring := ring
        pc := .idle
        pushed := s.pushed ++ [(s.ring.ring.currentPtr, src)] } ∧
      (∀ i : Fin 16, i.val < 15 → ring.ring.trb i =
        if i = s.ring.ring.currentIndex then src.withCycle (!s.ring.cycleStateOurs)
        else s.ring.ring.trb i) ∧
      ring.ring.trb 15 = if s.ring.ring.currentIndex = 14 then
        (s.ring.ring.trb 15).withCycle (!s.ring.cycleStateOurs) else s.ring.ring.trb 15 := by
  obtain ⟨ring₁, hwrite⟩ := h.write_ok src
  have h₁ := h.write hpc hkind hroom hwrite
  obtain ⟨ring₂, hadvance⟩ := h₁.advance_ok
  have h₂ := h₁.advance rfl hadvance
  obtain ⟨ring₃, hlink⟩ := h₂.link_ok
  have hstep₁ : RingStep lim s _ := .write hpc hkind hroom hwrite
  have hstep₂ : RingStep lim _ _ := .advance rfl hadvance
  have hstep₃ : RingStep lim _ _ := .link rfl hlink
  refine ⟨ring₃, ?_, ((Relation.ReflTransGen.single hstep₁).tail hstep₂).tail hstep₃, ?_, ?_⟩
  · rw [push, bind_of_ok hwrite, bind_of_ok hadvance, bind_of_ok hlink]
    rfl
  · intro i hi
    rw [h₂.link_frame hlink hi]
    rw [CommandRing.pushAdvance_eq _ h₁.current_cycle] at hadvance
    rw [CommandRing.pushWrite_eq _ _ h.current_cycle] at hwrite
    cases hwrite
    cases hadvance
    by_cases he : i = s.ring.ring.currentIndex
    · subst he
      simp only [TrbRing.current, Function.update_self, if_true]
      exact GenericTrbEntry.withCycle_withCycle _ _ _
    · simp only [Function.update_of_ne he, if_neg he]
  · have h15 := h.last_ne (by simp [hpc])
    rw [h₂.link_last hlink]
    rw [CommandRing.pushAdvance_eq _ h₁.current_cycle] at hadvance
    rw [CommandRing.pushWrite_eq _ _ h.current_cycle] at hwrite
    cases hwrite
    cases hadvance
    have hnext : s.ring.ring.currentIndex + 1 = 15 ↔ s.ring.ring.currentIndex = 14 := by
      constructor
      · intro he
        have hval := congrArg Fin.val he
        rw [succ_val (h.currentIndex_lt (by simp [hpc]))] at hval
        exact Fin.ext (Nat.succ.inj hval)
      · intro he
        rw [he]
        rfl
    simp only [Function.update_of_ne h15, hnext]

theorem of_runs_from (h : RingInv lim s w v) (hlim : lim ≤ 15) (hs : Runs (RingStep lim) s t) :
    ∃ w v, RingInv lim t w v := by
  apply Runs.invariant (fun s => ∃ w v, RingInv lim s w v) ?_ hs ⟨w, v, h⟩
  rintro s t ⟨w, v, hs⟩ hstep
  exact hs.step hlim hstep

theorem push_step (h : RingInv lim s w v) (hlim : lim ≤ 15) (hpc : s.pc = .idle)
    (hkind : src.kind ≠ TrbType.link.value) (hroom : s.unconsumed < lim) :
    ∃ t ptr w' v', push src s.ring = .ok ptr t.ring ∧ Runs (RingStep lim) s t ∧
      RingInv lim t w' v' ∧ t.pc = .idle ∧ t.taken = s.taken ∧
      t.pushed = s.pushed ++ [(ptr, src)] := by
  obtain ⟨ring, hpush, hruns, _⟩ := h.push_ok hpc hkind hroom
  obtain ⟨w', v', h'⟩ := h.of_runs_from hlim hruns
  exact ⟨_, _, w', v', hpush, hruns, h', rfl, rfl, rfl⟩

theorem mono (h : RingInv lim s w v) (hle : lim ≤ lim') : RingInv lim' s w v :=
  { h with room := Nat.le_trans h.room (Nat.add_le_add_left hle _) }

theorem unconsumed_le (h : RingInv lim s w v) : s.unconsumed ≤ lim :=
  Nat.sub_le_iff_le_add'.2 h.room

/-- With room for 14 entries the controller is at most a lap behind. -/
theorem near (h : RingInv lim s w v) (hlim : lim ≤ 14) :
    16 * w + s.ring.ring.currentIndex.val ≤ 16 * v + s.consumer.dequeue + 16 := by
  have hroom := h.room
  have hidx := s.ring.ring.currentIndex.isLt
  have hdeq := s.consumer.dequeue.isLt
  rw [h.pushedLen, h.takenLen] at hroom
  omega

/-- The controller only stops when it has taken every entry that has been handed over. -/
theorem next_none (h : RingInv lim s w v)
    (hnear : 16 * w + s.ring.ring.currentIndex.val ≤ 16 * v + s.consumer.dequeue + 16)
    (hnone : s.consumer.next s.ring.ring = none) :
    16 * v + s.consumer.dequeue.val = 16 * w + s.ring.ring.currentIndex := by
  have hlaps := h.laps
  have hb := h.behind
  have hidx := s.ring.ring.currentIndex.isLt
  have hdeq := s.consumer.dequeue.isLt
  have hcyc : (s.ring.ring.trb s.consumer.dequeue).cycle ≠ s.consumer.cycle := by
    intro hcyc
    rw [Consumer.next, if_neg (not_not.2 hcyc)] at hnone
    split at hnone <;> cases hnone
  rw [h.bits, h.cycle] at hcyc
  have hle : 16 * v + s.consumer.dequeue.val ≤ 16 * w + s.ring.ring.currentIndex := by omega
  have hslot : (16 * v + s.consumer.dequeue.val) % 16 = s.consumer.dequeue := by omega
  have hreader := bitAt_reader (n := 16) (by omega) hle hnear
  rw [hslot] at hreader
  have hnot : ¬16 * v + s.consumer.dequeue.val < 16 * w + s.ring.ring.currentIndex := by
    intro hlt
    exact hcyc (hreader.2 hlt)
  omega

/-- Left alone, the controller takes everything that has been handed over. -/
theorem drains (h : RingInv lim s w v) (hlim : lim ≤ 14) (hpc : s.pc = .idle) :
    ∃ t, Runs (RingStep lim) s t ∧ t.pushed = s.pushed ∧ t.taken.map seen = s.pushed.map seen := by
  generalize hn : 16 * w + s.ring.ring.currentIndex - (16 * v + s.consumer.dequeue.val) = n
  induction n generalizing s v with
  | zero =>
    cases hnext : s.consumer.next s.ring.ring with
    | none =>
      have heq := h.next_none (h.near hlim) hnext
      have hlen : s.taken.length = (s.pushed.map seen).length := by
        have hidx := s.ring.ring.currentIndex.isLt
        have hdeq := s.consumer.dequeue.isLt
        have hpushed := h.pushedLen
        rw [hpc] at hpushed
        rw [List.length_map, hpushed, h.takenLen]
        simp only [PushPc.inFlight]
        omega
      refine ⟨s, .refl, rfl, ?_⟩
      rw [h.taken_eq, hlen, List.take_length]
    | some out =>
      obtain ⟨v', h', hmeasure⟩ := h.take (by omega) hnext
      have hb := h'.behind
      have hlaps := h'.laps
      have hidx := s.ring.ring.currentIndex.isLt
      have hdeq := out.2.dequeue.isLt
      simp only at hb hlaps
      omega
  | succ n ih =>
    cases hnext : s.consumer.next s.ring.ring with
    | none =>
      have heq := h.next_none (h.near hlim) hnext
      omega
    | some out =>
      obtain ⟨v', h', hmeasure⟩ := h.take (by omega) hnext
      obtain ⟨t, hruns, hpushed, htaken⟩ := ih h' hpc (by
        simp only
        omega)
      exact ⟨t, .head (.take hnext) hruns, hpushed, htaken⟩

theorem takes (h : RingInv lim s w v) (hlim : lim ≤ 15)
    (hnear : 16 * w + s.ring.ring.currentIndex.val ≤ 16 * v + s.consumer.dequeue + 16)
    (hn : 16 * v + s.consumer.dequeue.val + n ≤ 16 * w + s.ring.ring.currentIndex) :
    ∃ t v', Runs (RingStep lim) s t ∧ RingInv lim t w v' ∧ t.ring = s.ring ∧ t.pc = s.pc ∧
      t.pushed = s.pushed ∧
      16 * v' + t.consumer.dequeue.val = 16 * v + s.consumer.dequeue + n := by
  induction n generalizing s v with
  | zero => exact ⟨s, v, .refl, h, rfl, rfl, rfl, rfl⟩
  | succ n ih =>
    cases hnext : s.consumer.next s.ring.ring with
    | none =>
      have heq := h.next_none hnear hnext
      omega
    | some out =>
      obtain ⟨v', h', hmeasure⟩ := h.take hlim hnext
      obtain ⟨t, v'', hruns, ht, hring, hpc, hpushed, hpos⟩ := ih h'
        (by dsimp only; omega) (by dsimp only; omega)
      refine ⟨t, v'', .head (.take hnext) hruns, ht, hring, hpc, hpushed, ?_⟩
      dsimp only at hpos
      omega

theorem pushes (h : RingInv lim s w v) (hlim : lim ≤ 15) (hpc : s.pc = .idle)
    (srcs : List GenericTrbEntry) (hkinds : ∀ src ∈ srcs, src.kind ≠ TrbType.link.value)
    (hroom : s.unconsumed + srcs.length ≤ lim) :
    ∃ t w' v', Runs (RingStep lim) s t ∧ RingInv lim t w' v' ∧ t.pc = .idle ∧
      t.taken = s.taken ∧ t.consumer = s.consumer ∧
      t.pushed.map Prod.snd = s.pushed.map Prod.snd ++ srcs := by
  induction srcs generalizing s w v with
  | nil => exact ⟨s, w, v, .refl, h, hpc, rfl, rfl, (List.append_nil _).symm⟩
  | cons src srcs ih =>
    obtain ⟨hkind, hkinds⟩ := List.forall_mem_cons.1 hkinds
    rw [List.length_cons] at hroom
    obtain ⟨ring, _, hruns, _⟩ := h.push_ok hpc hkind (by omega)
    obtain ⟨w', v', h'⟩ := h.of_runs_from hlim hruns
    have hmore := h'.taken_le
    obtain ⟨t, w'', v'', hruns', ht, hidle, htaken, hconsumer, hpushed⟩ := ih h' rfl hkinds (by
      have htaken := h.taken_le
      unfold RingSystem.unconsumed at *
      rw [List.length_append, List.length_singleton]
      dsimp only
      omega)
    refine ⟨t, w'', v'', hruns.trans hruns', ht, hidle, htaken, hconsumer, ?_⟩
    rw [hpushed, List.map_append, List.append_assoc]
    rfl

theorem of_runs (hlim : lim ≤ 15) (hring : CommandRing.default base hb = .ok ring)
    (h : Runs (RingStep lim) (.init ring) s) : ∃ w v, RingInv lim s w v :=
  (RingInv.init hring).of_runs_from hlim h

theorem refills (hring : CommandRing.default base hb = .ok ring) (hlim : lim ≤ 15)
    (hkind : src.kind ≠ TrbType.link.value) (hn : n ≤ lim) (hm : m ≤ lim) :
    ∃ s w v, Runs (RingStep lim) (.init ring) s ∧ RingInv lim s w v ∧ s.pc = .idle ∧
      s.pushed.map Prod.snd = List.replicate (n + m) src ∧ s.taken.length = n ∧
      s.consumer.dequeue.val = n := by
  have hkinds : ∀ k, ∀ x ∈ List.replicate k src, x.kind ≠ TrbType.link.value := by
    intro k x hx
    rwa [List.eq_of_mem_replicate hx]
  have hinit : RingInv lim (.init ring) 0 0 := RingInv.init hring
  have hstart : (RingSystem.init ring).consumer = ⟨0, true⟩ := Consumer.start_eq ring
  obtain ⟨s, w, v, hruns, h, hpc, htaken, hconsumer, hpushed⟩ :=
    hinit.pushes hlim rfl (List.replicate n src) (hkinds n) (by
      rw [List.length_replicate]
      exact (Nat.zero_add n).trans_le hn)
  have hidx := h.currentIndex_lt (by simp [hpc])
  have hdeq : s.consumer.dequeue.val = 0 := by
    rw [hconsumer, hstart]
    rfl
  have hv := h.takenLen
  have hw := h.pushedLen
  have hlen := congrArg List.length hpushed
  have hflight : PushPc.inFlight .idle = 0 := rfl
  have hnone : (RingSystem.init ring).pushed.map Prod.snd = [] := rfl
  rw [hnone, List.nil_append, List.length_map, List.length_replicate] at hlen
  rw [htaken, hdeq] at hv
  rw [hlen, hpc, hflight] at hw
  have hv0 : (RingSystem.init ring).taken.length = 0 := rfl
  obtain ⟨t, v', hruns', ht, hring', hpc', hpushed', hpos⟩ :=
    h.takes hlim (n := n) (by omega) (by omega)
  have htaken' := ht.takenLen
  have hdeq' := t.consumer.dequeue.isLt
  obtain ⟨u, w'', v'', hruns'', hu, hidle, htaken'', hconsumer'', hpushed''⟩ :=
    ht.pushes hlim (hpc'.trans hpc) (List.replicate m src) (hkinds m) (by
      rw [List.length_replicate, RingSystem.unconsumed, hpushed', hlen]
      omega)
  refine ⟨u, w'', v'', (hruns.trans hruns').trans hruns'', hu, hidle, ?_, ?_, ?_⟩
  · rw [hpushed'', hpushed', hpushed, hnone, List.nil_append, List.replicate_append_replicate]
  · rw [htaken'']
    omega
  · rw [hconsumer'']
    omega

end RingInv

/-- What holds in every state of a ring system in which a `push` starts while fewer than 14 entries
wait. -/
structure Delivered (s : RingSystem) : Prop where
  accepts : s.pc = .idle → s.unconsumed < 14 → ∀ src, src.kind ≠ TrbType.link.value →
    ∃ ptr ring, push src s.ring = .ok ptr ring ∧ Runs (RingStep 14) s
      { s with ring := ring, pc := .idle, pushed := s.pushed ++ [(ptr, src)] }
  writes : ∀ src, ∃ ptr ring, pushWrite src s.ring = .ok ptr ring
  advances : ∃ ring, pushAdvance s.ring = .ok () ring
  links : ∃ ring, pushLink s.ring = .ok () ring
  returns : ∀ ptr, s.pc = .written ptr ∨ s.pc = .flipped ptr →
    s.pushed.getLast?.map Prod.fst = some ptr
  inOrder : s.taken.map seen <+: s.pushed.map seen
  handedOver : s.taken.length + s.pc.inFlight ≤ s.pushed.length
  drains : s.pc = .idle → ∃ t, Runs (RingStep 14) s t ∧ t.pushed = s.pushed ∧
    t.taken.map seen = s.pushed.map seen

theorem command_ring_delivers (hring : CommandRing.default base hb = .ok ring)
    (hs : Runs (RingStep 14) (.init ring) s) : Delivered s := by
  obtain ⟨w, v, h⟩ := RingInv.of_runs (by omega) hring hs
  constructor
  case accepts =>
    intro hpc hroom src hkind
    obtain ⟨ring, hpush, hruns, _⟩ := h.push_ok hpc hkind hroom
    exact ⟨_, ring, hpush, hruns⟩
  case writes =>
    intro src
    exact ⟨_, h.write_ok src⟩
  case advances => exact h.advance_ok
  case links => exact h.link_ok
  case returns => exact h.ptr_eq
  case inOrder =>
    rw [h.taken_eq]
    exact List.take_prefix _ _
  case handedOver =>
    have hb := h.behind
    rw [h.pushedLen, h.takenLen]
    omega
  case drains => exact h.drains (by omega)

/-- Twenty commands, of which the controller has taken ten: the ring has wrapped. -/
theorem command_ring_delivers_noOp : ∃ ring s, CommandRing.default 4096 rfl = .ok ring ∧
    Runs (RingStep 14) (.init ring) s ∧ s.pushed.map Prod.snd = List.replicate 20 ⟨0, 0, 0x5c00⟩ ∧
    s.taken.length = 10 ∧ s.ring.ring.currentIndex = 5 ∧ Delivered s := by
  have hring := CommandRing.default_eq 4096 rfl
  have hkind : (⟨0, 0, 0x5c00⟩ : GenericTrbEntry).kind ≠ TrbType.link.value := by decide
  obtain ⟨s, w, v, hruns, h, hpc, hpushed, htaken, _⟩ :=
    RingInv.refills hring (by decide : 14 ≤ 15) hkind (by decide : 10 ≤ 14) (by decide : 10 ≤ 14)
  refine ⟨_, s, hring, hruns, hpushed, htaken, ?_, command_ring_delivers hring hruns⟩
  have hlen := congrArg List.length hpushed
  have hslot := h.slot_pushed hpc
  rw [List.length_map] at hlen
  rw [hlen] at hslot
  exact hslot.symm

/-- A slot that holds an entry which the controller has not taken, or the Link TRB while it is the
controller's to follow. -/
def RingSystem.Holds (s : RingSystem) (i : Fin 16) : Prop :=
  (∃ x ∈ s.pushed.drop s.taken.length, x.1 = s.ring.ring.addrOf i) ∨
    i = 15 ∧ (s.ring.ring.trb 15).cycle = s.consumer.cycle

/-- What a ring that refuses when it is full does on a `push`. -/
def PushMeets (s : RingSystem) (src : GenericTrbEntry) : Prop :=
  (∀ i, s.Holds i → (endState (push src) s.ring).ring.trb i = s.ring.ring.trb i) ∧
  ((∀ i : Fin 16, i.val < 15 → s.Holds i) →
    push src s.ring = .error (.err "Command Ring is Full") s.ring)

/-- Not every slot is occupied, and before the Link TRB is handed over again the controller has
followed it. -/
structure RingSystem.HasRoom (s : RingSystem) : Prop where
  slot : s.unconsumed < 15
  link : s.ring.ring.currentIndex = 14 → s.consumer.dequeue ≠ 15

namespace RingInv

variable {lim w v : Nat} {s : RingSystem}

theorem addrOf_inj {ring : TrbRing} (h : ring.addrOf i = ring.addrOf j) : i = j := by
  apply Fin.ext
  unfold TrbRing.addrOf at h
  omega

theorem holds_iff (h : RingInv lim s w v) (hi : i.val < 15) :
    s.Holds i ↔ ∃ k, s.taken.length ≤ k ∧ k < s.pushed.length ∧ slotOf k = i := by
  constructor
  · rintro (⟨x, hx, haddr⟩ | ⟨rfl, _⟩)
    · obtain ⟨j, hj⟩ := List.mem_iff_getElem?.1 hx
      rw [List.getElem?_drop] at hj
      obtain ⟨hlt, _⟩ := List.getElem?_eq_some_iff.1 hj
      refine ⟨s.taken.length + j, Nat.le_add_right _ _, hlt, ?_⟩
      rw [h.addrs _ _ hj] at haddr
      exact addrOf_inj haddr
    · exact absurd hi (by decide)
  · rintro ⟨k, hk, hlt, rfl⟩
    refine .inl ⟨s.pushed[k], ?_, h.addrs k _ (List.getElem?_eq_getElem hlt)⟩
    apply List.mem_iff_getElem?.2
    refine ⟨k - s.taken.length, ?_⟩
    rw [List.getElem?_drop, Nat.add_sub_cancel' hk, List.getElem?_eq_getElem hlt]

theorem holds_of_full (h : RingInv lim s w v) (hfull : 15 ≤ s.unconsumed) (hi : i.val < 15) :
    s.Holds i := by
  unfold RingSystem.unconsumed at hfull
  apply (h.holds_iff hi).2
  refine ⟨s.taken.length + (i.val + 15 - s.taken.length % 15) % 15, by omega, by omega, ?_⟩
  apply Fin.ext
  simp only [slotOf]
  omega

/-- Below the limit the slot that `push` writes to is free. -/
theorem not_holds_current (h : RingInv lim s w v) (hpc : s.pc = .idle) (hroom : s.unconsumed < 15) :
    ¬s.Holds s.ring.ring.currentIndex := by
  intro hholds
  obtain ⟨k, hk, hlt, hslot⟩ := (h.holds_iff (h.currentIndex_lt (by simp [hpc]))).1 hholds
  rw [← h.slot_pushed hpc] at hslot
  unfold RingSystem.unconsumed at hroom
  exact slotOf_ne hlt (by omega) hslot

theorem holds_link (h : RingInv lim s w v) (hholds : s.Holds 15) :
    (s.ring.ring.trb 15).cycle = s.consumer.cycle := by
  rcases hholds with ⟨x, hx, haddr⟩ | ⟨_, hcycle⟩
  · obtain ⟨j, hj⟩ := List.mem_iff_getElem?.1 hx
    rw [List.getElem?_drop] at hj
    rw [h.addrs _ _ hj] at haddr
    exact absurd (addrOf_inj haddr) (slotOf_ne_last _)
  · exact hcycle

/-- Before the last entry of a lap the Link TRB is the controller's only if the controller is still
at it. -/
theorem link_cycle_iff (h : RingInv lim s w v) (hpc : s.pc = .idle) (hroom : s.unconsumed < 15)
    (hidx : s.ring.ring.currentIndex = 14) :
    (s.ring.ring.trb 15).cycle = s.consumer.cycle ↔ s.consumer.dequeue = 15 := by
  have hval : s.ring.ring.currentIndex.val = 14 := congrArg Fin.val hidx
  have hdeq := s.consumer.dequeue.isLt
  have hlaps := h.laps
  have hb := h.behind
  have hlink : (s.ring.ring.trb 15).cycle = !(w % 2 == 0) := by
    have hmod : (16 * w + 14) % 16 = 14 := by omega
    rw [h.bits, hval, bitAt, hmod, if_neg (by decide), phase_lap (by omega)]
  have hcycle : s.consumer.cycle = (v % 2 == 0) := by
    rw [h.cycle, phase_lap hdeq]
  unfold RingSystem.unconsumed at hroom
  have hflight : PushPc.inFlight .idle = 0 := rfl
  rw [h.pushedLen, h.takenLen, hpc, hflight, hval] at hroom
  rw [hlink, hcycle, Fin.ext_iff]
  have hcases : v = w ∧ s.consumer.dequeue.val ≠ 15 ∨ w = v + 1 ∧ s.consumer.dequeue.val = 15 := by
    omega
  rcases hcases with ⟨rfl, hne⟩ | ⟨rfl, he⟩
  · refine iff_of_false ?_ hne
    cases v % 2 == 0 <;> decide
  · refine iff_of_true ?_ he
    rcases Nat.mod_two_eq_zero_or_one v with hv | hv
    · have hnext : (v + 1) % 2 = 1 := by omega
      rw [hv, hnext]
      rfl
    · have hnext : (v + 1) % 2 = 0 := by omega
      rw [hv, hnext]
      rfl

theorem link_flips (h : RingInv lim s w v) (hidx : s.ring.ring.currentIndex = 14)
    (hkept : (if s.ring.ring.currentIndex = 14 then
      (s.ring.ring.trb 15).withCycle (!s.ring.cycleStateOurs) else s.ring.ring.trb 15) =
        s.ring.ring.trb 15) : False := by
  have hval : s.ring.ring.currentIndex.val = 14 := congrArg Fin.val hidx
  have hours := h.ours
  have hlink := h.bits 15
  have hmod : (16 * w + 14) % 16 = 14 := by omega
  rw [hval] at hours hlink
  rw [bitAt, hmod, if_neg (by decide), ← hours] at hlink
  rw [if_pos hidx] at hkept
  have hcycle := congrArg GenericTrbEntry.cycle hkept
  rw [GenericTrbEntry.withCycle_cycle, hlink] at hcycle
  cases hc : s.ring.cycleStateOurs <;> rw [hc] at hcycle <;> cases hcycle

theorem lt_of_ne_last {i : Fin 16} (hne : i ≠ 15) : i.val < 15 := by
  have hlt := i.isLt
  have hval : i.val ≠ 15 := fun he => hne (Fin.ext he)
  omega

end RingInv

theorem push_refuses_iff (hring : CommandRing.default base hb = .ok ring)
    (hs : Runs (RingStep 15) (.init ring) s) (hpc : s.pc = .idle)
    (hkind : src.kind ≠ TrbType.link.value) : PushMeets s src ↔ s.HasRoom := by
  obtain ⟨w, v, h⟩ := RingInv.of_runs (Nat.le_refl 15) hring hs
  obtain ⟨ring', hpush, _, hframe, hlast⟩ := (h.mono (Nat.le_succ 15)).push_ok hpc hkind
    (Nat.lt_succ_of_le h.unconsumed_le)
  constructor
  · intro hmeets
    have hslot : s.unconsumed < 15 := by
      apply Nat.lt_of_not_le
      intro hfull
      have hrefuse := hmeets.2 fun i hi => h.holds_of_full hfull hi
      rw [hpush] at hrefuse
      cases hrefuse
    refine ⟨hslot, fun hidx hdeq => ?_⟩
    have hcycle := (h.link_cycle_iff hpc hslot hidx).2 hdeq
    have hkept := hmeets.1 15 (.inr ⟨rfl, hcycle⟩)
    rw [endState, hpush] at hkept
    exact h.link_flips hidx (hlast.symm.trans hkept)
  · intro hroom
    have hfree := h.not_holds_current hpc hroom.slot
    constructor
    · intro i hi
      rw [endState, hpush]
      by_cases hlink : i = 15
      · subst hlink
        refine hlast.trans (if_neg fun hidx => hroom.link hidx ?_)
        exact (h.link_cycle_iff hpc hroom.slot hidx).1 (h.holds_link hi)
      · have hne : i ≠ s.ring.ring.currentIndex := by
          rintro rfl
          exact hfree hi
        exact (hframe i (RingInv.lt_of_ne_last hlink)).trans (if_neg hne)
    · intro hfull
      exact absurd (hfull _ (h.currentIndex_lt (by simp [hpc]))) hfree

/-- The controller has taken fifteen commands and waits at the Link TRB, with fourteen more to come:
the next command would hand the Link TRB over again. -/
theorem push_refuses_iff_noOp : ∃ ring s, CommandRing.default 4096 rfl = .ok ring ∧
    Runs (RingStep 15) (.init ring) s ∧ s.pc = .idle ∧ s.unconsumed = 14 ∧
    s.ring.ring.currentIndex = 14 ∧ s.consumer.dequeue = 15 ∧ ¬PushMeets s ⟨0, 0, 0x5c00⟩ := by
  have hring := CommandRing.default_eq 4096 rfl
  have hkind : (⟨0, 0, 0x5c00⟩ : GenericTrbEntry).kind ≠ TrbType.link.value := by decide
  obtain ⟨s, w, v, hruns, h, hpc, hpushed, htaken, hdeq⟩ :=
    RingInv.refills hring (Nat.le_refl 15) hkind (Nat.le_refl 15) (by decide : 14 ≤ 15)
  have hlen := congrArg List.length hpushed
  have hslot := h.slot_pushed hpc
  rw [List.length_map] at hlen
  rw [hlen] at hslot
  have hdequeue : s.consumer.dequeue = 15 := Fin.ext hdeq
  refine ⟨_, s, hring, hruns, hpc, ?_, hslot.symm, hdequeue, fun hmeets => ?_⟩
  · rw [RingSystem.unconsumed, hlen, htaken]
    rfl
  · exact ((push_refuses_iff hring hruns hpc hkind).1 hmeets).link hslot.symm hdequeue

/-- The sixteenth command overwrites the first one. -/
theorem push_overwrites : ∃ ring s ptr after, CommandRing.default 4096 rfl = .ok ring ∧
    Runs (RingStep 15) (.init ring) s ∧ s.pc = .idle ∧ s.taken = [] ∧
    s.pushed.map Prod.snd = List.replicate 15 ⟨0, 0, 0x5c00⟩ ∧
    (∀ i : Fin 16, i.val < 15 → s.Holds i) ∧
    push ⟨0, 0, 0x2400⟩ s.ring = .ok ptr after ∧ after.ring.trb 0 ≠ s.ring.ring.trb 0 ∧
    ¬PushMeets s ⟨0, 0, 0x2400⟩ := by
  have hring := CommandRing.default_eq 4096 rfl
  have hkind : (⟨0, 0, 0x2400⟩ : GenericTrbEntry).kind ≠ TrbType.link.value := by decide
  have hnoOp : (⟨0, 0, 0x5c00⟩ : GenericTrbEntry).kind ≠ TrbType.link.value := by decide
  obtain ⟨s, w, v, hruns, h, hpc, hpushed, htakenLen, _⟩ :=
    RingInv.refills hring (Nat.le_refl 15) hnoOp (Nat.zero_le 15) (Nat.le_refl 15)
  have htaken : s.taken = [] := List.length_eq_zero_iff.1 htakenLen
  have hlen : s.pushed.length = 15 := by
    have hlength := congrArg List.length hpushed
    rwa [List.length_map] at hlength
  have hfull : 15 ≤ s.unconsumed := by
    rw [RingSystem.unconsumed, hlen, htaken]
    exact Nat.le_refl 15
  obtain ⟨after, hpush, _, hframe, _⟩ := (h.mono (Nat.le_succ 15)).push_ok hpc hkind
    (Nat.lt_succ_of_le h.unconsumed_le)
  have hidx : s.ring.ring.currentIndex = 0 := by
    have hslot := h.slot_pushed hpc
    rw [hlen] at hslot
    exact hslot.symm
  have hafter := (hframe 0 (by decide)).trans (if_pos hidx.symm)
  have hbefore : (s.ring.ring.trb 0).contents = (⟨0, 0, 0x5c00⟩ : GenericTrbEntry).contents := by
    have hget : s.pushed[0]? = some (s.pushed[0]) := List.getElem?_eq_getElem (by omega)
    have hsnd : (s.pushed.map Prod.snd)[0]? = some ⟨0, 0, 0x5c00⟩ := by
      rw [hpushed]
      rfl
    rw [List.getElem?_map, hget, Option.map_some] at hsnd
    have hc := h.contents 0 _ hget (by omega)
    rw [Option.some.inj hsnd] at hc
    exact hc
  have hne : after.ring.trb 0 ≠ s.ring.ring.trb 0 := by
    intro he
    rw [hafter] at he
    rw [← he, GenericTrbEntry.contents_withCycle] at hbefore
    exact absurd hbefore (by decide)
  have hheld : ∀ i : Fin 16, i.val < 15 → s.Holds i := fun i hi => h.holds_of_full hfull hi
  refine ⟨_, s, _, after, hring, hruns, hpc, htaken, hpushed, hheld, hpush, hne, ?_⟩
  intro hmeets
  have hkept := hmeets.1 0 (hheld 0 (by decide))
  rw [endState, hpush] at hkept
  exact hne hkept

end Wasabi
