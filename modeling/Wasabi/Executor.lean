import Wasabi.Outcome
import Wasabi.Runs
import Wasabi.Usize

namespace Wasabi
set_option autoImplicit true

/-- A value behind a lock. There is one processor, so nobody gives the lock back while another
caller tries to take it. -/
structure Mutex (α : Type) where
  data : α
  isTaken : Bool

namespace Mutex

def new (data : α) : Mutex α := ⟨data, false⟩

def tryLock : EStateM Fault (Mutex α) Unit := do
  let mutex ← get
  if mutex.isTaken then
    throw (.err "Lock failed")
  else set { mutex with isTaken := true }

/-- The attempts of `lock`; the panic after the last one is an assertion. -/
def lockLoop : Nat → EStateM Fault (Mutex α) Unit
  | 0 => throw .assertion
  | n + 1 => tryCatch tryLock fun _ => lockLoop n

def lock : EStateM Fault (Mutex α) Unit := lockLoop 10000

/-- A statement on the data, whose guard is dropped at its end. -/
def locked (f : α → β × α) : EStateM Fault (Mutex α) β := do
  lock
  let mutex ← get
  set (⟨(f mutex.data).2, false⟩ : Mutex α)
  return (f mutex.data).1

theorem lockLoop_free (m : Mutex α) (n : Nat) (h : m.isTaken = false) :
    lockLoop (n + 1) m = .ok () { m with isTaken := true } := by
  have htry : tryLock m = .ok () { m with isTaken := true } := by
    rw [tryLock, get_bind, h]
    rfl
  change EStateM.tryCatch tryLock (fun _ => lockLoop n) m = _
  rw [EStateM.tryCatch, htry]

theorem lockLoop_taken (m : Mutex α) (n : Nat) (h : m.isTaken = true) :
    lockLoop n m = .error .assertion m := by
  induction n with
  | zero => rfl
  | succ n ih =>
    have htry : tryLock m = .error (.err "Lock failed") m := by
      rw [tryLock, get_bind, h]
      rfl
    change EStateM.tryCatch tryLock (fun _ => lockLoop n) m = _
    rw [EStateM.tryCatch, htry]
    exact ih

theorem locked_free (m : Mutex α) (f : α → β × α) (h : m.isTaken = false) :
    locked f m = .ok (f m.data).1 ⟨(f m.data).2, false⟩ := by
  have hlock : lock m = .ok () { m with isTaken := true } := lockLoop_free m 9999 h
  rw [locked, bind_of_ok hlock, get_bind]
  rfl

theorem locked_ok {m : Mutex α} {f : α → β × α} (h : locked f m = .ok b m') :
    m.isTaken = false ∧ b = (f m.data).1 ∧ m' = ⟨(f m.data).2, false⟩ := by
  cases hm : m.isTaken with
  | false =>
    rw [locked_free m f hm] at h
    cases h
    exact ⟨rfl, rfl, rfl⟩
  | true =>
    have hlock : lock m = .error .assertion m := lockLoop_taken m 10000 hm
    change EStateM.bind lock _ m = _ at h
    rw [EStateM.bind, hlock] at h
    cases h

end Mutex

/-- The box of a future, numbered in the order of spawning. -/
structure Task where
  future : Nat
  deriving DecidableEq, Repr

structure Executor where
  taskQueue : Option (List Task)
  deriving DecidableEq, Repr

namespace Executor

def new : Executor := ⟨none⟩

def queue (e : Executor) : List Task := e.taskQueue.getD []

def enqueue (e : Executor) (task : Task) : Executor := ⟨some (e.queue ++ [task])⟩

def popFront (e : Executor) : Option Task × Executor := (e.queue.head?, ⟨some e.queue.tail⟩)

end Executor

abbrev GlobalExecutor := Mutex (Option Executor)

def spawnGlobal (task : Task) : EStateM Fault GlobalExecutor Unit :=
  Mutex.locked fun e => ((), some ((e.getD .new).enqueue task))

/-- The statement of `run` that takes the next task. -/
def takeTask : EStateM Fault GlobalExecutor (Option (Option Task)) :=
  Mutex.locked fun e => (e.map fun e => e.popFront.1, e.map fun e => e.popFront.2)

/-- The statement of `run` that puts back a task whose poll was pending. -/
def putBack (task : Task) : EStateM Fault GlobalExecutor Unit :=
  Mutex.locked fun e => ((), e.map (·.enqueue task))

/-- Where the processor is: before the executor starts, at the head of its loop or in a poll. -/
inductive RunPc where
  | boot
  | head
  | polling (task : Task)
  deriving DecidableEq, Repr

/-- The executor, the number of tasks spawned so far, and in order the polls begun and the tasks
that returned `Ready`. -/
structure ExecSystem where
  executor : GlobalExecutor
  pc : RunPc
  spawned : Nat
  polls : List Task
  completed : List Task

namespace ExecSystem

def init : ExecSystem := ⟨.new none, .boot, 0, [], []⟩

def queue (s : ExecSystem) : List Task := (s.executor.data.getD .new).queue

end ExecSystem

/-- The loop of `run` around polls that may spawn any number of tasks and end either way. -/
inductive ExecStep : ExecSystem → ExecSystem → Prop where
  | spawn : s.pc ≠ .head → spawnGlobal ⟨s.spawned⟩ s.executor = .ok () executor →
      ExecStep s { s with executor := executor, spawned := s.spawned + 1 }
  | start : s.pc = .boot → ExecStep s { s with pc := .head }
  | idle : s.pc = .head → takeTask s.executor = .ok task executor → task.join = none →
      ExecStep s { s with executor := executor }
  | pop : s.pc = .head → takeTask s.executor = .ok (some (some task)) executor →
      ExecStep s { s with executor := executor, pc := .polling task, polls := s.polls ++ [task] }
  | ready : s.pc = .polling task →
      ExecStep s { s with pc := .head, completed := s.completed ++ [task] }
  | pending : s.pc = .polling task → putBack task s.executor = .ok () executor →
      ExecStep s { s with executor := executor, pc := .head }

namespace ExecSystem

def active (s : ExecSystem) : List Task :=
  match s.pc with
  | .polling task => [task]
  | _ => []

theorem active_polling {s : ExecSystem} (h : s.pc = .polling task) : s.active = [task] := by
  rw [active, h]

theorem active_head {s : ExecSystem} (h : s.pc = .head) : s.active = [] := by
  rw [active, h]

theorem active_boot {s : ExecSystem} (h : s.pc = .boot) : s.active = [] := by
  rw [active, h]

end ExecSystem

/-- The executor holds every task that has been spawned and not returned `Ready`, once. -/
structure ExecInv (s : ExecSystem) : Prop where
  free : s.executor.isTaken = false
  present : ∀ task, s.pc = .polling task → s.executor.data ≠ none
  nodup : (s.active ++ s.queue).Nodup
  held : ∀ task, task ∈ s.active ++ s.queue ↔ task.future < s.spawned ∧ task ∉ s.completed
  done : ∀ task ∈ s.completed, task.future < s.spawned

section
variable {s t : ExecSystem}

theorem spawnGlobal_ok (h : spawnGlobal task s.executor = .ok () executor) :
    executor = ⟨some ⟨some (s.queue ++ [task])⟩, false⟩ :=
  (Mutex.locked_ok h).2.2

theorem takeTask_none (h : takeTask s.executor = .ok task executor) (hnone : task.join = none) :
    s.queue = [] ∧ (executor.data.getD .new).queue = [] ∧ executor.isTaken = false := by
  obtain ⟨_, rfl, rfl⟩ := Mutex.locked_ok h
  cases hdata : s.executor.data with
  | none => simp [ExecSystem.queue, hdata, Executor.new, Executor.queue]
  | some e =>
    have hqueue : e.queue = [] := by
      rw [hdata] at hnone
      exact List.head?_eq_none_iff.1 hnone
    refine ⟨by rwa [ExecSystem.queue, hdata], ?_, rfl⟩
    exact congrArg List.tail hqueue

theorem takeTask_some (h : takeTask s.executor = .ok (some (some task)) executor) :
    ∃ rest, s.queue = task :: rest ∧ executor = ⟨some ⟨some rest⟩, false⟩ := by
  obtain ⟨_, htask, rfl⟩ := Mutex.locked_ok h
  cases hdata : s.executor.data with
  | none =>
    rw [hdata] at htask
    cases htask
  | some e =>
    rw [hdata] at htask
    have hhead : e.queue.head? = some task := (Option.some.inj htask).symm
    obtain ⟨rest, hrest⟩ := List.head?_eq_some_iff.1 hhead
    refine ⟨rest, ?_, ?_⟩
    · rw [ExecSystem.queue, hdata]
      exact hrest
    · simp [Executor.popFront, hrest]

theorem putBack_ok (hdata : s.executor.data ≠ none)
    (h : putBack task s.executor = .ok () executor) :
    executor = ⟨some ⟨some (s.queue ++ [task])⟩, false⟩ := by
  obtain ⟨_, _, rfl⟩ := Mutex.locked_ok h
  obtain ⟨e, he⟩ := Option.ne_none_iff_exists'.1 hdata
  rw [ExecSystem.queue, he]
  rfl

/-- Tasks leave the queue in the order in which they came in. -/
theorem ExecStep.fifo (h : ExecInv s) (hs : ExecStep s t) :
    ∃ more, t.polls ++ t.queue = s.polls ++ s.queue ++ more := by
  cases hs with
  | spawn _ hok =>
    have he := spawnGlobal_ok hok
    subst he
    exact ⟨_, (List.append_assoc _ _ _).symm⟩
  | start => exact ⟨[], (List.append_nil _).symm⟩
  | idle _ hok hnone =>
    obtain ⟨hq, hq', _⟩ := takeTask_none hok hnone
    refine ⟨[], ?_⟩
    rw [hq, ExecSystem.queue, hq', List.append_nil, List.append_nil]
  | pop _ hok =>
    obtain ⟨rest, hq, rfl⟩ := takeTask_some hok
    exact ⟨[], by rw [hq, List.append_nil]; exact (List.append_cons _ _ _).symm⟩
  | ready => exact ⟨[], (List.append_nil _).symm⟩
  | pending hpc hok =>
    have he := putBack_ok (h.present _ hpc) hok
    subst he
    exact ⟨_, (List.append_assoc _ _ _).symm⟩

namespace ExecInv

theorem init : ExecInv .init where
  free := rfl
  present _ h := by cases h
  nodup := .nil
  held task := by
    simp [ExecSystem.active, ExecSystem.queue, ExecSystem.init, Mutex.new, Executor.new,
      Executor.queue]
  done task hmem := by cases hmem

theorem of_perm (h : ExecInv s) (hfree : t.executor.isTaken = false)
    (hpresent : ∀ task, t.pc = .polling task → t.executor.data ≠ none)
    (hperm : (t.active ++ t.queue).Perm (s.active ++ s.queue)) (hspawned : t.spawned = s.spawned)
    (hcompleted : t.completed = s.completed) : ExecInv t where
  free := hfree
  present := hpresent
  nodup := hperm.nodup_iff.2 h.nodup
  held task := by rw [hperm.mem_iff, hspawned, hcompleted, h.held]
  done task := by rw [hspawned, hcompleted]; exact h.done task

theorem spawn (h : ExecInv s) : ExecInv { s with
    executor := ⟨some ⟨some (s.queue ++ [⟨s.spawned⟩])⟩, false⟩, spawned := s.spawned + 1 } where
  free := rfl
  present _ _ := nofun
  nodup := by
    have hfresh : (⟨s.spawned⟩ : Task) ∉ s.active ++ s.queue := by
      intro hmem
      exact Nat.lt_irrefl _ ((h.held _).1 hmem).1
    have hnodup := (List.perm_append_singleton _ _).nodup_iff.2
      (List.nodup_cons.2 ⟨hfresh, h.nodup⟩)
    rwa [List.append_assoc] at hnodup
  held task := by
    have hheld := h.held task
    have hnew : task = ⟨s.spawned⟩ ↔ task.future = s.spawned := by
      cases task
      simp
    change task ∈ s.active ++ (s.queue ++ [_]) ↔ task.future < s.spawned + 1 ∧ task ∉ s.completed
    rw [← List.append_assoc, List.mem_append, List.mem_singleton, hheld, hnew]
    have hdone := h.done task
    constructor
    · rintro (⟨hlt, hnot⟩ | he)
      · exact ⟨by omega, hnot⟩
      · exact ⟨by omega, fun hmem => absurd (hdone hmem) (by omega)⟩
    · rintro ⟨hlt, hnot⟩
      rcases Nat.lt_succ_iff_lt_or_eq.1 hlt with hlt | he
      · exact .inl ⟨hlt, hnot⟩
      · exact .inr he
  done task hmem := Nat.lt_succ_of_lt (h.done task hmem)

theorem ready (h : ExecInv s) (hpc : s.pc = .polling task) :
    ExecInv { s with pc := .head, completed := s.completed ++ [task] } := by
  have hactive := ExecSystem.active_polling hpc
  have hnodup := h.nodup
  rw [hactive] at hnodup
  obtain ⟨hnot, hqueue⟩ := List.nodup_cons.1 hnodup
  have hheld := h.held
  rw [hactive] at hheld
  refine { h with present := fun _ => nofun, nodup := hqueue, held := ?held, done := ?done }
  case held =>
    intro other
    have hother := hheld other
    rw [List.singleton_append, List.mem_cons] at hother
    change other ∈ s.queue ↔ other.future < s.spawned ∧ other ∉ s.completed ++ [task]
    rw [List.mem_append, List.mem_singleton, not_or, ← and_assoc, ← hother]
    constructor
    · intro hmem
      refine ⟨.inr hmem, ?_⟩
      rintro rfl
      exact hnot hmem
    · rintro ⟨he | hmem, hne⟩
      · exact absurd he hne
      · exact hmem
  case done =>
    intro other hmem
    rcases List.mem_append.1 hmem with hmem | hmem
    · exact h.done other hmem
    · rw [List.mem_singleton.1 hmem]
      exact ((hheld task).1 List.mem_cons_self).1

theorem step (h : ExecInv s) (hs : ExecStep s t) : ExecInv t := by
  cases hs with
  | spawn hpc hok =>
    have he := spawnGlobal_ok hok
    subst he
    exact h.spawn
  | start hpc =>
    apply h.of_perm
    case hfree => exact h.free
    case hpresent => exact fun _ => nofun
    case hperm =>
      rw [ExecSystem.active_boot hpc]
      rfl
    case hspawned => rfl
    case hcompleted => rfl
  | idle hpc hok hnone =>
    obtain ⟨hq, hq', hfree⟩ := takeTask_none hok hnone
    apply h.of_perm
    case hfree => exact hfree
    case hpresent =>
      intro task hpoll
      rw [hpc] at hpoll
      cases hpoll
    case hperm =>
      rw [hq, ExecSystem.queue, hq']
      rfl
    case hspawned => rfl
    case hcompleted => rfl
  | pop hpc hok =>
    obtain ⟨rest, hq, rfl⟩ := takeTask_some hok
    apply h.of_perm
    case hfree => rfl
    case hpresent => exact fun _ _ => nofun
    case hperm =>
      rw [ExecSystem.active_head hpc, hq]
      rfl
    case hspawned => rfl
    case hcompleted => rfl
  | ready hpc => exact h.ready hpc
  | pending hpc hok =>
    have he := putBack_ok (h.present _ hpc) hok
    subst he
    apply h.of_perm
    case hfree => rfl
    case hpresent => exact fun _ => nofun
    case hperm =>
      rw [ExecSystem.active_polling hpc]
      exact List.perm_append_singleton _ _
    case hspawned => rfl
    case hcompleted => rfl

theorem of_runs (hs : Runs ExecStep .init s) : ExecInv s :=
  hs.invariant ExecInv (fun _ _ h => h.step) init

theorem fifo (h : ExecInv s) (hs : Runs ExecStep s t) :
    ∃ more, t.polls ++ t.queue = s.polls ++ s.queue ++ more := by
  suffices hinv : ExecInv t ∧ ∃ more, t.polls ++ t.queue = s.polls ++ s.queue ++ more from hinv.2
  refine hs.invariant (fun u => ExecInv u ∧ ∃ more, u.polls ++ u.queue = s.polls ++ s.queue ++ more)
    (fun u v ⟨hu, more, he⟩ huv => ⟨hu.step huv, ?_⟩) ⟨h, [], (List.append_nil _).symm⟩
  obtain ⟨more', he'⟩ := huv.fifo hu
  exact ⟨more ++ more', by rw [he', he, List.append_assoc]⟩

end ExecInv

/-- A task that has returned `Ready` stays away from the polls. -/
theorem ExecStep.completed_only (h : ExecInv s) (hs : ExecStep s t) (hdone : task ∈ s.completed) :
    task ∈ t.completed ∧ ∃ polled, t.polls = s.polls ++ polled ∧ task ∉ polled := by
  cases hs with
  | spawn => exact ⟨hdone, [], (List.append_nil _).symm, List.not_mem_nil⟩
  | start => exact ⟨hdone, [], (List.append_nil _).symm, List.not_mem_nil⟩
  | idle => exact ⟨hdone, [], (List.append_nil _).symm, List.not_mem_nil⟩
  | pop hpc hok =>
    obtain ⟨rest, hq, _⟩ := takeTask_some hok
    refine ⟨hdone, _, rfl, fun hmem => ?_⟩
    rw [List.mem_singleton] at hmem
    subst hmem
    have hheld : task ∈ s.active ++ s.queue := by
      rw [hq]
      exact List.mem_append_right _ List.mem_cons_self
    exact ((h.held task).1 hheld).2 hdone
  | ready =>
    exact ⟨List.mem_append_left _ hdone, [], (List.append_nil _).symm, List.not_mem_nil⟩
  | pending => exact ⟨hdone, [], (List.append_nil _).symm, List.not_mem_nil⟩

theorem ExecInv.completed_only (h : ExecInv s) (hs : Runs ExecStep s t)
    (hdone : task ∈ s.completed) : ∃ polled, t.polls = s.polls ++ polled ∧ task ∉ polled := by
  have hinv := hs.invariant
    (fun u => ExecInv u ∧ task ∈ u.completed ∧
      ∃ polled, u.polls = s.polls ++ polled ∧ task ∉ polled)
    (fun u v ⟨hu, hmem, polled, he, hnot⟩ huv => ?_)
    ⟨h, hdone, [], (List.append_nil _).symm, List.not_mem_nil⟩
  · exact hinv.2.2
  · obtain ⟨hmem', more, he', hnot'⟩ := huv.completed_only hu hmem
    refine ⟨hu.step huv, hmem', polled ++ more, by rw [he', he, List.append_assoc], ?_⟩
    rw [List.mem_append, not_or]
    exact ⟨hnot, hnot'⟩

theorem split_unique {a : α} {xs ys zs ws : List α} (h : xs ++ a :: zs = ys ++ a :: ws)
    (hx : a ∉ xs) (hy : a ∉ ys) : xs = ys := by
  induction xs generalizing ys with
  | nil =>
    cases ys with
    | nil => rfl
    | cons y ys => exact absurd (List.cons.inj h).1 (List.ne_of_not_mem_cons hy)
  | cons x xs ih =>
    cases ys with
    | nil => exact absurd (List.cons.inj h).1.symm (List.ne_of_not_mem_cons hx)
    | cons y ys =>
      rw [List.cons_append, List.cons_append, List.cons.injEq] at h
      rw [h.1, ih h.2 (List.not_mem_of_not_mem_cons hx) (List.not_mem_of_not_mem_cons hy)]

/-- What the executor does for its tasks, seen from a state `s` of a run. -/
structure ExecFair (s : ExecSystem) : Prop where
  exact : s.pc = .head → s.queue.Nodup ∧
    ∀ task, task ∈ s.queue ↔ task.future < s.spawned ∧ task ∉ s.completed
  advances : s.pc = .head → s.queue ≠ [] → ∃ task t, ExecStep s t ∧ t.pc = .polling task
  returns : ∀ task, s.pc = .polling task → ∃ executor, putBack task s.executor = .ok () executor
  spawns : ∀ task, ∃ executor, spawnGlobal task s.executor = .ok () executor
  notAgain : ∀ task ∈ s.completed, ∀ t polled, Runs ExecStep s t → t.polls = s.polls ++ polled →
    task ∉ polled
  once : ∀ task, s.pc = .polling task → s.queue.Nodup ∧ task ∉ s.queue
  between : ∀ task executor, s.pc = .polling task → putBack task s.executor = .ok () executor →
    ∀ t polled, Runs ExecStep { s with executor := executor, pc := .head } t →
      t.polls = s.polls ++ polled ++ [task] → task ∉ polled → polled = s.queue
  notStarved : ∀ task executor, s.pc = .polling task → putBack task s.executor = .ok () executor →
    ∀ t polled, Runs ExecStep { s with executor := executor, pc := .head } t →
      t.polls = s.polls ++ polled → s.queue.length < polled.length →
      polled[s.queue.length]? = some task

namespace ExecInv

theorem once (h : ExecInv s) (hpc : s.pc = .polling task) : s.queue.Nodup ∧ task ∉ s.queue := by
  have hnodup := h.nodup
  rw [ExecSystem.active_polling hpc] at hnodup
  exact (List.nodup_cons.1 hnodup).symm

/-- The polls after a task was put back are those of the queue at that time, and then its own. -/
theorem polled_eq (h : ExecInv s) (hpc : s.pc = .polling task)
    (hok : putBack task s.executor = .ok () executor)
    (hs : Runs ExecStep { s with executor := executor, pc := .head } t)
    (hpolls : t.polls = s.polls ++ polled) :
    ∃ more, polled ++ t.queue = s.queue ++ task :: more := by
  have he := putBack_ok (h.present _ hpc) hok
  obtain ⟨more, hfifo⟩ := (h.step (.pending hpc hok)).fifo hs
  subst he
  have hqueue : ∀ q, t.polls ++ q = s.polls ++ (polled ++ q) := fun q => by
    rw [hpolls, List.append_assoc]
  rw [hqueue, List.append_assoc] at hfifo
  refine ⟨more, (List.append_cancel_left hfifo).trans ?_⟩
  exact List.append_assoc _ _ _

theorem fair (h : ExecInv s) : ExecFair s where
  exact hpc := by
    have hnodup := h.nodup
    have hheld := h.held
    rw [ExecSystem.active_head hpc] at hnodup hheld
    exact ⟨hnodup, hheld⟩
  advances hpc hne := by
    obtain ⟨task, rest, hq⟩ := List.exists_cons_of_ne_nil hne
    obtain ⟨e, hdata, hqueue⟩ : ∃ e, s.executor.data = some e ∧ e.queue = task :: rest := by
      cases hdata : s.executor.data with
      | none =>
        rw [ExecSystem.queue, hdata] at hq
        cases hq
      | some e =>
        rw [ExecSystem.queue, hdata] at hq
        exact ⟨e, rfl, hq⟩
    have hok : takeTask s.executor = .ok (some (some task)) ⟨some ⟨some rest⟩, false⟩ := by
      rw [takeTask, Mutex.locked_free _ _ h.free, hdata]
      simp only [Option.map_some, Executor.popFront, hqueue, List.head?_cons, List.tail_cons]
    exact ⟨task, _, .pop hpc hok, rfl⟩
  returns task _ := ⟨_, Mutex.locked_free _ _ h.free⟩
  spawns task := ⟨_, Mutex.locked_free _ _ h.free⟩
  notAgain task hdone t polled hs hpolls := by
    obtain ⟨polled', he, hnot⟩ := h.completed_only hs hdone
    rw [hpolls] at he
    rwa [List.append_cancel_left he]
  once task := h.once
  between task executor hpc hok t polled hs hpolls hnot := by
    rw [List.append_assoc] at hpolls
    obtain ⟨more, he⟩ := h.polled_eq hpc hok hs hpolls
    rw [List.append_assoc] at he
    exact split_unique he hnot (h.once hpc).2
  notStarved task executor hpc hok t polled hs hpolls hlt := by
    obtain ⟨more, he⟩ := h.polled_eq hpc hok hs hpolls
    have hget := congrArg (·[s.queue.length]?) he
    simpa [List.getElem?_append_left hlt] using hget

end ExecInv

end

/-- The executor neither loses nor duplicates nor starves a task. -/
theorem executor_fair (hs : Runs ExecStep .init s) : ExecFair s := (ExecInv.of_runs hs).fair

/-- Three tasks, of which the last one is spawned in the first poll and the second one returns. -/
theorem executor_fair_three : ∃ s, Runs ExecStep .init s ∧ s.pc = .head ∧
    s.polls = [⟨0⟩, ⟨1⟩, ⟨2⟩] ∧ s.completed = [⟨1⟩] ∧ s.queue = [⟨0⟩, ⟨2⟩] ∧ ExecFair s := by
  have hspawn (pc : RunPc) (q : Option Executor) (n : Nat) (polls done : List Task)
      (hpc : pc ≠ .head) : ExecStep ⟨⟨q, false⟩, pc, n, polls, done⟩
        ⟨⟨some ((q.getD .new).enqueue ⟨n⟩), false⟩, pc, n + 1, polls, done⟩ :=
    .spawn hpc (Mutex.locked_free _ _ rfl)
  have hpop (task : Task) (rest : List Task) (n : Nat) (polls done : List Task) :
      ExecStep ⟨⟨some ⟨some (task :: rest)⟩, false⟩, .head, n, polls, done⟩
        ⟨⟨some ⟨some rest⟩, false⟩, .polling task, n, polls ++ [task], done⟩ :=
    .pop rfl (Mutex.locked_free _ _ rfl)
  have hpending (task : Task) (e : Executor) (n : Nat) (polls done : List Task) :
      ExecStep ⟨⟨some e, false⟩, .polling task, n, polls, done⟩
        ⟨⟨some (e.enqueue task), false⟩, .head, n, polls, done⟩ :=
    .pending rfl (Mutex.locked_free _ _ rfl)
  have hboot : RunPc.boot ≠ .head := by decide
  have hstart := ((Relation.ReflTransGen.single (hspawn _ none 0 [] [] hboot)).tail
    (hspawn _ _ _ _ _ hboot)).tail (.start rfl)
  have hfirst := ((hstart.tail (hpop ⟨0⟩ [⟨1⟩] 2 [] [])).tail
    (hspawn _ _ _ _ _ RunPc.noConfusion)).tail (hpending _ _ _ _ _)
  have hsecond := (hfirst.tail (hpop ⟨1⟩ [⟨2⟩, ⟨0⟩] 3 [⟨0⟩] [])).tail (.ready rfl)
  have hruns := (hsecond.tail (hpop ⟨2⟩ [⟨0⟩] 3 [⟨0⟩, ⟨1⟩] [⟨1⟩])).tail (hpending _ _ _ _ _)
  exact ⟨_, hruns, rfl, rfl, rfl, rfl, executor_fair hruns⟩

end Wasabi
