import Wasabi.Executor

namespace Wasabi
set_option autoImplicit true

/-- The lock with the line of the caller that took it last. -/
structure TracedMutex (α : Type) extends Mutex α where
  takerLineNum : Nat

/-- Where a caller is: outside, at an attempt of `lock` after some failed ones, between the exchange
and the store of its line, in possession of the guard, or stopped by the panic. -/
inductive Caller where
  | outside
  | trying (line failed : Nat)
  | exchanged (line : Nat)
  | holding (line : Nat)
  | panicked (takerLineNum : Nat)
  deriving DecidableEq, Repr

def Caller.Owns (c : Caller) (line : Nat) : Prop := c = .exchanged line ∨ c = .holding line

inductive LockEvent (ι α : Type) where
  | acquire (i : ι) (line : Nat)
  | access (i : ι) (f : α → α)
  | release (i : ι)

/-- A lock between callers, and what was done under it so far, oldest first. -/
structure LockSystem (ι α : Type) where
  mutex : TracedMutex α
  pc : ι → Caller
  trace : List (LockEvent ι α)

/-- A critical section: who entered it, from which line, and what it did to the data. -/
structure CriticalSection (ι α : Type) where
  caller : ι
  line : Nat
  accesses : List (α → α)

namespace CriticalSection
variable {ι α : Type}

def opened (c : CriticalSection ι α) : List (LockEvent ι α) :=
  .acquire c.caller c.line :: c.accesses.map (.access c.caller)

def events (c : CriticalSection ι α) : List (LockEvent ι α) := c.opened ++ [.release c.caller]

def apply (data : α) (c : CriticalSection ι α) : α := c.accesses.foldl (fun x f => f x) data

end CriticalSection

section
variable {ι α : Type}

def LockSystem.init (data : α) : LockSystem ι α := ⟨⟨.new data, 0⟩, fun _ => .outside, []⟩

def Named (done : List (CriticalSection ι α)) (current : Option (CriticalSection ι α))
    (line : Nat) : Prop := line = 0 ∨ ∃ c ∈ done ++ current.toList, c.line = line

/-- The sections `done`, one after the other, and the open one account for all that happened. -/
structure Serial (data : α) (s : LockSystem ι α) (done : List (CriticalSection ι α))
    (current : Option (CriticalSection ι α)) : Prop where
  trace : s.trace = done.flatMap (·.events) ++ current.elim [] (·.opened)
  data_eq : s.mutex.data = (done ++ current.toList).foldl CriticalSection.apply data
  taken : s.mutex.isTaken = current.isSome
  owner : ∀ i line, (s.pc i).Owns line ↔ ∃ c, current = some c ∧ c.caller = i ∧ c.line = line
  holder : ∀ i line, s.pc i = .holding line → s.mutex.takerLineNum = line
  stored : Named done current s.mutex.takerLineNum
  reported : ∀ i line, s.pc i = .panicked line → Named done current line
  attempts : ∀ i line failed, s.pc i = .trying line failed → failed ≤ 10000

theorem Named.mono {done done' : List (CriticalSection ι α)}
    {current current' : Option (CriticalSection ι α)} (h : Named done current line)
    (hc : ∀ c ∈ done ++ current.toList, ∃ c' ∈ done' ++ current'.toList, c'.line = c.line) :
    Named done' current' line := by
  rcases h with hz | ⟨c, hmem, rfl⟩
  · exact .inl hz
  · exact .inr (hc c hmem)

theorem Serial.init (data : α) : Serial data (.init data : LockSystem ι α) [] none where
  trace := rfl
  data_eq := rfl
  taken := rfl
  owner i line := by simp [LockSystem.init, Caller.Owns]
  holder i line h := by cases h
  stored := .inl rfl
  reported i line h := by cases h
  attempts i line failed h := by cases h

theorem Serial.owns_unique {s : LockSystem ι α} (h : Serial data s done current)
    (hi : (s.pc i).Owns line) (hj : (s.pc j).Owns line') : i = j := by
  obtain ⟨c, hc, rfl, _⟩ := (h.owner i line).1 hi
  obtain ⟨c', hc', rfl, _⟩ := (h.owner j line').1 hj
  cases hc.symm.trans hc'
  rfl

theorem Serial.current_of_owns {s : LockSystem ι α} (h : Serial data s done current)
    (hi : (s.pc i).Owns line) : ∃ accesses, current = some ⟨i, line, accesses⟩ := by
  obtain ⟨c, rfl, rfl, rfl⟩ := (h.owner i line).1 hi
  exact ⟨c.accesses, rfl⟩

theorem Caller.not_owns_trying (line failed l : Nat) : ¬ (Caller.trying line failed).Owns l := by
  rintro (ho | ho) <;> cases ho

theorem tryLock_ok {m m' : Mutex α} (h : Mutex.tryLock m = .ok () m') :
    m.isTaken = false ∧ m' = { m with isTaken := true } := by
  rw [Mutex.tryLock, get_bind] at h
  cases hm : m.isTaken with
  | false =>
    rw [hm] at h
    cases h
    exact ⟨rfl, rfl⟩
  | true =>
    rw [hm] at h
    cases h

end

section
variable {ι α : Type} [DecidableEq ι]

def LockSystem.move (s : LockSystem ι α) (i : ι) (c : Caller) : LockSystem ι α :=
  { s with pc := Function.update s.pc i c }

/-- One atomic operation of one caller. -/
inductive LockStep : LockSystem ι α → LockSystem ι α → Prop where
  | call (i : ι) (line : Nat) : s.pc i = .outside → LockStep s (s.move i (.trying line 0))
  | exchange (i : ι) : s.pc i = .trying line failed → failed < 10000 →
      Mutex.tryLock s.mutex.toMutex = .ok () m →
      LockStep s { s.move i (.exchanged line) with
        mutex := ⟨m, s.mutex.takerLineNum⟩
        trace := s.trace ++ [.acquire i line] }
  | refused (i : ι) : s.pc i = .trying line failed → failed < 10000 →
      Mutex.tryLock s.mutex.toMutex = .error e m →
      LockStep s (s.move i (.trying line (failed + 1)))
  | panic (i : ι) : s.pc i = .trying line 10000 →
      LockStep s (s.move i (.panicked s.mutex.takerLineNum))
  | store (i : ι) : s.pc i = .exchanged line →
      LockStep s { s.move i (.holding line) with mutex := { s.mutex with takerLineNum := line } }
  | access (i : ι) (f : α → α) : s.pc i = .holding line →
      LockStep s { s with
        mutex := { s.mutex with data := f s.mutex.data }
        trace := s.trace ++ [.access i f] }
  | drop (i : ι) : s.pc i = .holding line →
      LockStep s { s.move i .outside with
        mutex := { s.mutex with isTaken := false }
        trace := s.trace ++ [.release i] }

theorem LockSystem.move_eq {s : LockSystem ι α} (h : (s.move i c).pc j = c') :
    (j = i ∧ c = c') ∨ (j ≠ i ∧ s.pc j = c') := by
  change Function.update s.pc i c j = c' at h
  rw [Function.update_apply] at h
  split at h
  · next hj => exact .inl ⟨hj, h⟩
  · next hj => exact .inr ⟨hj, h⟩

theorem LockSystem.move_owns {s : LockSystem ι α} {i j : ι} {c : Caller} :
    ((s.move i c).pc j).Owns line ↔ (j = i ∧ c.Owns line) ∨ (j ≠ i ∧ (s.pc j).Owns line) := by
  change (Function.update s.pc i c j).Owns line ↔ _
  rw [Function.update_apply]
  split
  · next hj => simp [hj]
  · next hj => simp [hj]

namespace Serial
variable {data : α} {s t : LockSystem ι α} {done : List (CriticalSection ι α)}
  {current : Option (CriticalSection ι α)} {i j : ι} {c : Caller}

theorem wait (h : Serial data s done current) (hi : ∀ line, ¬ (s.pc i).Owns line)
    (hc : ∀ line, ¬ c.Owns line) (hreport : ∀ line, c = .panicked line → Named done current line)
    (hattempt : ∀ line failed, c = .trying line failed → failed ≤ 10000) :
    Serial data (s.move i c) done current where
  trace := h.trace
  data_eq := h.data_eq
  taken := h.taken
  owner j line := by
    rw [← h.owner, LockSystem.move_owns]
    constructor
    · rintro (⟨_, ho⟩ | ⟨_, ho⟩)
      · exact absurd ho (hc line)
      · exact ho
    · intro ho
      refine .inr ⟨?_, ho⟩
      rintro rfl
      exact hi line ho
  holder j line hj := by
    rcases LockSystem.move_eq hj with ⟨_, hj⟩ | ⟨_, hj⟩
    · exact absurd (.inr hj) (hc line)
    · exact h.holder j line hj
  stored := h.stored
  reported j line hj := by
    rcases LockSystem.move_eq hj with ⟨_, hj⟩ | ⟨_, hj⟩
    · exact hreport line hj
    · exact h.reported j line hj
  attempts j line failed hj := by
    rcases LockSystem.move_eq hj with ⟨_, hj⟩ | ⟨_, hj⟩
    · exact hattempt line failed hj
    · exact h.attempts j line failed hj

theorem exchange (h : Serial data s done current) (hfree : s.mutex.isTaken = false) :
    Serial data { s.move i (.exchanged line) with
      mutex := ⟨{ s.mutex.toMutex with isTaken := true }, s.mutex.takerLineNum⟩
      trace := s.trace ++ [.acquire i line] } done (some ⟨i, line, []⟩) := by
  obtain rfl : current = none := by
    rw [h.taken] at hfree
    cases current with
    | none => rfl
    | some c => cases hfree
  have hmem : ∀ c ∈ done ++ (none : Option (CriticalSection ι α)).toList,
      ∃ c' ∈ done ++ [⟨i, line, []⟩], c'.line = c.line := by
    intro c hc
    rw [Option.toList_none, List.append_nil] at hc
    exact ⟨c, List.mem_append_left _ hc, rfl⟩
  have hothers : ∀ j line, ¬ (s.pc j).Owns line := by
    intro j line hj
    obtain ⟨c, hc, _⟩ := (h.owner j line).1 hj
    cases hc
  refine ⟨?_, ?_, rfl, fun j l => ?_, fun j l hj => ?_, h.stored.mono hmem, fun j l hj => ?_,
    fun j l n hj => ?_⟩
  · rw [h.trace]
    simp [CriticalSection.opened]
  · have hd := h.data_eq
    rw [Option.toList_none, List.append_nil] at hd
    rw [Option.toList_some, List.foldl_append, ← hd]
    rfl
  · refine LockSystem.move_owns.trans ?_
    constructor
    · rintro (⟨rfl, ho⟩ | ⟨_, ho⟩)
      · rcases ho with ho | ho
        · cases ho
          exact ⟨_, rfl, rfl, rfl⟩
        · cases ho
      · exact absurd ho (hothers j l)
    · rintro ⟨c, hc, rfl, rfl⟩
      cases hc
      exact .inl ⟨rfl, .inl rfl⟩
  · rcases LockSystem.move_eq hj with ⟨_, hj⟩ | ⟨_, hj⟩
    · cases hj
    · exact h.holder j l hj
  · rcases LockSystem.move_eq hj with ⟨_, hj⟩ | ⟨_, hj⟩
    · cases hj
    · exact (h.reported j l hj).mono hmem
  · rcases LockSystem.move_eq hj with ⟨_, hj⟩ | ⟨_, hj⟩
    · cases hj
    · exact h.attempts j l n hj

theorem store (h : Serial data s done current) (hi : s.pc i = .exchanged line) :
    Serial data { s.move i (.holding line) with
      mutex := { s.mutex with takerLineNum := line } } done current := by
  obtain ⟨accesses, rfl⟩ := h.current_of_owns (.inl hi)
  refine ⟨h.trace, h.data_eq, h.taken, fun j l => ?_, fun j l hj => ?_, ?_, fun j l hj => ?_,
    fun j l n hj => ?_⟩
  · rw [← h.owner]
    refine LockSystem.move_owns.trans ?_
    constructor
    · rintro (⟨rfl, ho⟩ | ⟨_, ho⟩)
      · rcases ho with ho | ho
        · cases ho
        · cases ho
          exact .inl hi
      · exact ho
    · intro ho
      have hj := h.owns_unique ho (.inl hi)
      subst hj
      refine .inl ⟨rfl, ?_⟩
      rcases ho with ho | ho
      · cases hi.symm.trans ho
        exact .inr rfl
      · cases hi.symm.trans ho
  · rcases LockSystem.move_eq hj with ⟨_, hj⟩ | ⟨hne, hj⟩
    · cases hj
      rfl
    · exact absurd (h.owns_unique (.inr hj) (.inl hi)) hne
  · exact .inr ⟨_, List.mem_append_right _ List.mem_cons_self, rfl⟩
  · rcases LockSystem.move_eq hj with ⟨_, hj⟩ | ⟨_, hj⟩
    · cases hj
    · exact h.reported j l hj
  · rcases LockSystem.move_eq hj with ⟨_, hj⟩ | ⟨_, hj⟩
    · cases hj
    · exact h.attempts j l n hj

omit [DecidableEq ι] in
theorem access (h : Serial data s done current) (hi : s.pc i = .holding line) (f : α → α) :
    ∃ current', Serial data { s with
      mutex := { s.mutex with data := f s.mutex.data }
      trace := s.trace ++ [.access i f] } done current' := by
  obtain ⟨accesses, rfl⟩ := h.current_of_owns (.inr hi)
  have hmem : ∀ c ∈ done ++ [⟨i, line, accesses⟩],
      ∃ c' ∈ done ++ [⟨i, line, accesses ++ [f]⟩], c'.line = c.line := by
    intro c hc
    rcases List.mem_append.1 hc with hc | hc
    · exact ⟨c, List.mem_append_left _ hc, rfl⟩
    · rw [List.mem_singleton.1 hc]
      exact ⟨_, List.mem_append_right _ List.mem_cons_self, rfl⟩
  refine ⟨some ⟨i, line, accesses ++ [f]⟩, ?_, ?_, h.taken, fun j l => ?_, h.holder,
    h.stored.mono hmem, fun j l hj => (h.reported j l hj).mono hmem, h.attempts⟩
  · rw [h.trace]
    simp [CriticalSection.opened]
  · have hd := h.data_eq
    rw [Option.toList_some, List.foldl_append] at hd ⊢
    simp only [List.foldl_cons, List.foldl_nil, CriticalSection.apply, List.foldl_append] at hd ⊢
    rw [hd]
  · rw [h.owner]
    simp

theorem drop (h : Serial data s done current) (hi : s.pc i = .holding line) :
    ∃ done', Serial data { s.move i .outside with
      mutex := { s.mutex with isTaken := false }
      trace := s.trace ++ [.release i] } done' none := by
  obtain ⟨accesses, rfl⟩ := h.current_of_owns (.inr hi)
  have hmem : ∀ c ∈ done ++ (some (⟨i, line, accesses⟩ : CriticalSection ι α)).toList,
      ∃ c' ∈ (done ++ [⟨i, line, accesses⟩]) ++ (none : Option (CriticalSection ι α)).toList,
        c'.line = c.line := by
    intro c hc
    exact ⟨c, List.mem_append_left _ hc, rfl⟩
  refine ⟨done ++ [⟨i, line, accesses⟩], ?_, ?_, rfl, fun j l => ?_, fun j l hj => ?_,
    h.stored.mono hmem, fun j l hj => ?_, fun j l n hj => ?_⟩
  · rw [h.trace]
    simp [CriticalSection.events]
  · rw [Option.toList_none, List.append_nil]
    exact h.data_eq
  · refine LockSystem.move_owns.trans ?_
    constructor
    · rintro (⟨_, ho⟩ | ⟨hne, ho⟩)
      · rcases ho with ho | ho <;> cases ho
      · exact absurd (h.owns_unique ho (.inr hi)) hne
    · rintro ⟨c, hc, _⟩
      cases hc
  · rcases LockSystem.move_eq hj with ⟨_, hj⟩ | ⟨hne, hj⟩
    · cases hj
    · exact absurd (h.owns_unique (.inr hj) (.inr hi)) hne
  · rcases LockSystem.move_eq hj with ⟨_, hj⟩ | ⟨_, hj⟩
    · cases hj
    · exact (h.reported j l hj).mono hmem
  · rcases LockSystem.move_eq hj with ⟨_, hj⟩ | ⟨_, hj⟩
    · cases hj
    · exact h.attempts j l n hj

theorem step (h : Serial data s done current) (hs : LockStep s t) :
    ∃ done current, Serial data t done current := by
  cases hs with
  | call i line hi =>
    refine ⟨done, current, h.wait ?_ (Caller.not_owns_trying line 0) ?_ ?_⟩
    · intro l ho
      rw [hi] at ho
      rcases ho with ho | ho <;> cases ho
    · intro l hl
      cases hl
    · intro l n hl
      cases hl
      omega
  | exchange i hi _ hok =>
    obtain ⟨hfree, rfl⟩ := tryLock_ok hok
    exact ⟨done, _, h.exchange hfree⟩
  | refused i hi hlt _ =>
    refine ⟨done, current, h.wait ?_ (Caller.not_owns_trying _ _) ?_ ?_⟩
    · rw [hi]
      exact Caller.not_owns_trying _ _
    · intro l hl
      cases hl
    · intro l n hl
      cases hl
      omega
  | panic i hi =>
    refine ⟨done, current, h.wait ?_ ?_ ?_ ?_⟩
    · rw [hi]
      exact Caller.not_owns_trying _ _
    · rintro l (ho | ho) <;> cases ho
    · intro l hl
      cases hl
      exact h.stored
    · intro l n hl
      cases hl
  | store i hi => exact ⟨done, current, h.store hi⟩
  | access i f hi => exact ⟨done, h.access hi f⟩
  | drop i hi =>
    obtain ⟨done', hd⟩ := h.drop hi
    exact ⟨done', none, hd⟩

end Serial

def lockAll : List (CriticalSection ι α) → EStateM Fault (Mutex α) Unit
  | [] => return ()
  | c :: cs => do
    Mutex.locked fun data => ((), c.apply data)
    lockAll cs

omit [DecidableEq ι] in
theorem lockAll_free (cs : List (CriticalSection ι α)) (data : α) :
    lockAll cs (.new data) = .ok () (.new (cs.foldl CriticalSection.apply data)) := by
  induction cs generalizing data with
  | nil => rfl
  | cons c cs ih =>
    have hlock := Mutex.locked_free (.new data) (fun data => ((), c.apply data)) rfl
    rw [lockAll, bind_of_ok hlock]
    exact ih _

/-- Whatever callers do in whatever order, the sections under a lock come one after the other: each
sees what the ones before it left, nobody else is in the section of another, and a panic names a
line that held the lock at some time, or none if no line was stored yet. Between sections the lock
is as one processor leaves it. -/
theorem lock_serial (data : α) (hs : Runs LockStep (.init data : LockSystem ι α) s) :
    ∃ done current, Serial data s done current ∧
      (current = none → lockAll done (.new data) = .ok () s.mutex.toMutex) := by
  obtain ⟨done, current, h⟩ :=
    hs.invariant (fun s => ∃ done current, Serial data s done current)
      (fun _ _ ⟨_, _, h⟩ hstep => h.step hstep) ⟨[], none, Serial.init data⟩
  refine ⟨done, current, h, ?_⟩
  rintro rfl
  have hdata := h.data_eq
  have htaken : s.mutex.isTaken = false := h.taken
  rw [Option.toList_none, List.append_nil] at hdata
  rw [lockAll_free, ← hdata, Mutex.new, ← htaken]

/-- Two callers: the second is refused once and enters when the first has left. -/
theorem lock_serial_handover :
    ∃ s : LockSystem Bool Nat, Runs LockStep (.init 0) s ∧ s.mutex.data = 6 ∧
      ∃ done current, Serial 0 s done current ∧
        (current = none → lockAll done (.new 0) = .ok () s.mutex.toMutex) := by
  have hstart : Runs LockStep (.init 0 : LockSystem Bool Nat) (.init 0) := .refl
  have hcalls := (hstart.tail (.call false 10 rfl)).tail (.call true 20 rfl)
  have hfirst := (hcalls.tail (.exchange false rfl (by decide) rfl)).tail
    (.refused true rfl (by decide) rfl)
  have hwork := ((hfirst.tail (.store false rfl)).tail (.access false (· + 1) rfl)).tail
    (.drop false rfl)
  have hsecond := (hwork.tail (.exchange true rfl (by decide) rfl)).tail (.store true rfl)
  have hend := (hsecond.tail (.access true (· + 5) rfl)).tail (.drop true rfl)
  exact ⟨_, hend, rfl, lock_serial 0 hend⟩

end

end Wasabi
