import Wasabi.X86

namespace Wasabi
set_option autoImplicit true

structure GeneralRegisterContext where
  rax : BitVec 64
  rdx : BitVec 64
  rbx : BitVec 64
  rbp : BitVec 64
  rsi : BitVec 64
  rdi : BitVec 64
  r8 : BitVec 64
  r9 : BitVec 64
  r10 : BitVec 64
  r11 : BitVec 64
  r12 : BitVec 64
  r13 : BitVec 64
  r14 : BitVec 64
  r15 : BitVec 64
  rcx : BitVec 64
  deriving DecidableEq, Repr

structure InterruptContext where
  rip : BitVec 64
  cs : BitVec 64
  rflags : BitVec 64
  rsp : BitVec 64
  ss : BitVec 64
  deriving DecidableEq, Repr

/-- The words of the structure but its padding. -/
structure InterruptInfo where
  fpuContext : Vector (BitVec 64) 64
  greg : GeneralRegisterContext
  errorCode : BitVec 64
  ctx : InterruptContext

def GeneralRegisterContext.of (s : Cpu) : GeneralRegisterContext where
  rax := s.reg .rax
  rdx := s.reg .rdx
  rbx := s.reg .rbx
  rbp := s.reg .rbp
  rsi := s.reg .rsi
  rdi := s.reg .rdi
  r8 := s.reg .r8
  r9 := s.reg .r9
  r10 := s.reg .r10
  r11 := s.reg .r11
  r12 := s.reg .r12
  r13 := s.reg .r13
  r14 := s.reg .r14
  r15 := s.reg .r15
  rcx := s.reg .rcx

def InterruptContext.of (s : Cpu) : InterruptContext where
  rip := s.rip
  cs := s.cs.setWidth 64
  rflags := s.rflags
  rsp := s.reg .rsp
  ss := s.ss.setWidth 64

namespace InterruptInfo

def words : Nat := 86

/-- The structure at `p`, by the offsets of its fields. -/
def load (m : BitVec 64 → BitVec 64) (p : BitVec 64) : InterruptInfo where
  fpuContext := .ofFn fun i => m (wordAddr p i)
  greg.rax := m (wordAddr p 65)
  greg.rdx := m (wordAddr p 66)
  greg.rbx := m (wordAddr p 67)
  greg.rbp := m (wordAddr p 68)
  greg.rsi := m (wordAddr p 69)
  greg.rdi := m (wordAddr p 70)
  greg.r8 := m (wordAddr p 71)
  greg.r9 := m (wordAddr p 72)
  greg.r10 := m (wordAddr p 73)
  greg.r11 := m (wordAddr p 74)
  greg.r12 := m (wordAddr p 75)
  greg.r13 := m (wordAddr p 76)
  greg.r14 := m (wordAddr p 77)
  greg.r15 := m (wordAddr p 78)
  greg.rcx := m (wordAddr p 79)
  errorCode := m (wordAddr p 80)
  ctx.rip := m (wordAddr p 81)
  ctx.cs := m (wordAddr p 82)
  ctx.rflags := m (wordAddr p 83)
  ctx.rsp := m (wordAddr p 84)
  ctx.ss := m (wordAddr p 85)

end InterruptInfo

def interruptEntrypoint (index : Nat) : List Instr :=
  [.pushImm 0, .push .rcx, .movImm .rcx (BitVec.ofNat 64 index)]

def interruptEntrypointWithEcode (index : Nat) : List Instr :=
  [.push .rcx, .movImm .rcx (BitVec.ofNat 64 index)]

inductive HandlerFn where
  | intHandlerUnimplemented
  | interruptEntrypoint3
  | interruptEntrypoint6
  | interruptEntrypoint8
  | interruptEntrypoint13
  | interruptEntrypoint14
  | interruptEntrypoint32
  deriving DecidableEq, Repr

/-- The stub in front of `inthandler_common`. -/
def HandlerFn.stub : HandlerFn → Option (List Instr)
  | intHandlerUnimplemented => none
  | interruptEntrypoint3 => some (interruptEntrypoint 3)
  | interruptEntrypoint6 => some (interruptEntrypoint 6)
  | interruptEntrypoint8 => some (interruptEntrypoint 8)
  | interruptEntrypoint13 => some (interruptEntrypointWithEcode 13)
  | interruptEntrypoint14 => some (interruptEntrypointWithEcode 14)
  | interruptEntrypoint32 => some (interruptEntrypoint 32)

/-- `inthandler_common` up to the call. -/
def saveContext : List Instr :=
  [.push .r15, .push .r14, .push .r13, .push .r12, .push .r11, .push .r10, .push .r9, .push .r8,
    .push .rdi, .push .rsi, .push .rbp, .push .rbx, .push .rdx, .push .rax,
    .subImm .rsp (512 + 8), .fxsave64 .rsp, .mov .rdi .rsp, .mov .rbp .rsp, .andImm .rsp (-16),
    .mov .rsi .rcx]

/-- `inthandler_common` after the call. -/
def restoreContext : List Instr :=
  [.mov .rsp .rbp, .fxrstor64 .rsp, .addImm .rsp (512 + 8),
    .pop .rax, .pop .rdx, .pop .rbx, .pop .rbp, .pop .rsi, .pop .rdi, .pop .r8, .pop .r9,
    .pop .r10, .pop .r11, .pop .r12, .pop .r13, .pop .r14, .pop .r15,
    .pop .rcx, .addImm .rsp 8, .iretq]

def inthandlerCommon : List Instr := saveContext ++ [.call] ++ restoreContext

inductive IdtAttr where
  | notPresent
  | intGateDpl0
  | intGateDpl3
  deriving DecidableEq, Repr

structure IdtDescriptor where
  segmentSelector : BitVec 16
  istIndex : BitVec 8
  attr : IdtAttr
  f : HandlerFn
  deriving DecidableEq, Repr

structure Idt where
  entries : Fin 256 → IdtDescriptor

def Idt.new (segmentSelector : BitVec 16) : Idt :=
  let entries := fun _ => ⟨segmentSelector, 1, .intGateDpl0, .intHandlerUnimplemented⟩
  let entries := Function.update entries 3
    ⟨segmentSelector, 1, .intGateDpl3, .interruptEntrypoint3⟩
  let entries := Function.update entries 6
    ⟨segmentSelector, 1, .intGateDpl0, .interruptEntrypoint6⟩
  let entries := Function.update entries 8
    ⟨segmentSelector, 2, .intGateDpl0, .interruptEntrypoint8⟩
  let entries := Function.update entries 13
    ⟨segmentSelector, 1, .intGateDpl0, .interruptEntrypoint13⟩
  let entries := Function.update entries 14
    ⟨segmentSelector, 1, .intGateDpl0, .interruptEntrypoint14⟩
  let entries := Function.update entries 32
    ⟨segmentSelector, 1, .intGateDpl0, .interruptEntrypoint32⟩
  ⟨entries⟩

/-- The calling convention: the callee returns with the saved registers as they were, and the
structure that its first argument points to is shared, so it is not written. -/
structure SysV64 (callee : Cpu → Option Cpu) : Prop where
  saved : ∀ s s', callee s = some s' →
    ∀ r ∈ [Reg.rbx, .rbp, .rsp, .r12, .r13, .r14, .r15], s'.reg r = s.reg r
  info : ∀ s s', callee s = some s' → ∀ i < InterruptInfo.words,
    s'.mem (wordAddr (s.reg .rdi) i) = s.mem (wordAddr (s.reg .rdi) i)

namespace Interrupts

def pushed : List Reg :=
  [.r15, .r14, .r13, .r12, .r11, .r10, .r9, .r8, .rdi, .rsi, .rbp, .rbx, .rdx, .rax]

/-- The memory words below `inthandler_common`'s stack, as `InterruptInfo` lays them out. -/
def infoWords (fpu : Vector (BitVec 64) 64) (dummy : BitVec 64) (f : Reg → BitVec 64)
    (vs : List (BitVec 64)) : List (BitVec 64) :=
  fpu.toList ++ dummy :: (pushed.reverse.map f ++ vs)

theorem saveContext_eq : saveContext = pushed.map .push ++
    [.subImm .rsp (512 + 8), .fxsave64 .rsp, .mov .rdi .rsp, .mov .rbp .rsp, .andImm .rsp (-16),
      .mov .rsi .rcx] := rfl

variable (env : Environment)

theorem save_pushes {s : Cpu} (hsp : (s.reg .rsp).toNat % 8 = 0)
    (h : StackAt s.mem (s.reg .rsp) vs) (hlen : vs.length ≤ 8) : ∃ m,
      Cpu.run env (pushed.map .push) s = .ok { s.set .rsp (s.reg .rsp - 112) with mem := m } ∧
      StackAt m (s.reg .rsp - 112) (pushed.reverse.map s.reg ++ vs) := by
  have hpushed : (pushed.map s.reg).length = 14 := rfl
  obtain ⟨m, hpush, hstack⟩ := Cpu.pushAll_ok (pushed.map s.reg) hsp h (by omega)
  rw [hpushed] at hpush hstack
  rw [← List.map_reverse] at hstack
  exact ⟨m, (Cpu.run_push pushed (by decide) s).trans hpush, hstack⟩

theorem save_room {s : Cpu} (hsp : (s.reg .rsp).toNat % 8 = 0)
    (h : StackAt s.mem (s.reg .rsp) vs) (hlen : vs.length ≤ 8) : ∃ s' dummy,
      Cpu.run env saveContext s = Cpu.run env [.fxsave64 .rsp, .mov .rdi .rsp, .mov .rbp .rsp,
        .andImm .rsp (-16), .mov .rsi .rcx] s' ∧
      s'.reg .rsp = s.reg .rsp - 632 ∧ s'.reg .rcx = s.reg .rcx ∧ s'.fpu = s.fpu ∧
      StackAt s'.mem (wordAddr (s.reg .rsp - 632) 64)
        (dummy :: (pushed.reverse.map s.reg ++ vs)) := by
  obtain ⟨m, hrun, hstack⟩ := save_pushes env hsp h hlen
  have hroom : s.reg .rsp - 112 - (512 + 8) = s.reg .rsp - 632 := by bv_omega
  have haddr : s.reg .rsp - 112 - 8 = wordAddr (s.reg .rsp - 632) 64 := by
    rw [wordAddr]
    bv_omega
  have hextend := hstack.extend
  rw [haddr] at hextend
  let s₁ : Cpu := { s.set .rsp (s.reg .rsp - 112) with mem := m }
  let s₂ : Cpu := { s₁.set .rsp (s₁.reg .rsp - (512 + 8)) with
    rflags := env.aluFlags (.subImm .rsp (512 + 8)) s₁ }
  have hsub : s₁.exec env (.subImm .rsp (512 + 8)) = .ok s₂ := rfl
  refine ⟨s₂, _, ?_, hroom, rfl, rfl, hextend⟩
  rw [saveContext_eq, Cpu.run_append, hrun, ok_bind, Cpu.run_cons hsub]

/-- The operand of `fxsave64` is the address of the structure. -/
theorem saveContext_ok {s : Cpu} (hsp : (s.reg .rsp).toNat % 8 = 0)
    (h : StackAt s.mem (s.reg .rsp) vs) (hlen : vs.length ≤ 8)
    (hal : (s.reg .rsp - 632).toNat % 16 = 0) : ∃ c dummy, Cpu.run env saveContext s = .ok c ∧
      c.reg .rdi = s.reg .rsp - 632 ∧ c.reg .rbp = s.reg .rsp - 632 ∧ c.reg .rsi = s.reg .rcx ∧
      StackAt c.mem (s.reg .rsp - 632) (infoWords s.fpu dummy s.reg vs) := by
  obtain ⟨s₁, dummy, hrun, hrsp, hrcx, hfpu, hstack⟩ := save_room env hsp h hlen
  rw [← hrsp] at hal hstack ⊢
  rw [← hrcx, ← hfpu]
  let s₂ : Cpu := { s₁ with mem := blockStore s₁.mem (s₁.reg .rsp) s₁.fpu.toList }
  have hsave : s₁.exec env (.fxsave64 .rsp) = .ok s₂ := if_pos hal
  rw [hrun, Cpu.run_cons hsave]
  refine ⟨_, dummy, rfl, rfl, rfl, rfl, ?_⟩
  have hpushed : (pushed.reverse.map s.reg).length = 14 := rfl
  refine StackAt.blockStore hstack Vector.length_toList ?_
  rw [List.length_cons, List.length_append]
  omega

theorem saveContext_misaligned {s : Cpu} (hsp : (s.reg .rsp).toNat % 8 = 0)
    (h : StackAt s.mem (s.reg .rsp) vs) (hlen : vs.length ≤ 8)
    (hal : (s.reg .rsp - 632).toNat % 16 ≠ 0) :
    Cpu.run env saveContext s = .error .generalProtection := by
  obtain ⟨s₁, dummy, hrun, hrsp, _⟩ := save_room env hsp h hlen
  rw [← hrsp] at hal
  have hsave : s₁.exec env (.fxsave64 .rsp) = .error .generalProtection := if_neg hal
  rw [hrun, Cpu.run, hsave]
  rfl

theorem infoWords_length (fpu : Vector (BitVec 64) 64) (dummy : BitVec 64)
    (f : Reg → BitVec 64) (vs : List (BitVec 64)) :
    (infoWords fpu dummy f vs).length = 79 + vs.length := by
  have hpushed : (pushed.reverse.map f).length = 14 := rfl
  rw [infoWords, List.length_append, List.length_cons, List.length_append, Vector.length_toList]
  omega

theorem infoWords_drop (fpu : Vector (BitVec 64) 64) (dummy : BitVec 64) (f : Reg → BitVec 64)
    (vs : List (BitVec 64)) :
    (infoWords fpu dummy f vs).drop 65 = pushed.reverse.map f ++ vs := by
  have hlen : fpu.toList.length = 64 := Vector.length_toList
  rw [infoWords, List.drop_append, hlen, List.drop_eq_nil_of_le (by omega), List.nil_append]
  rfl

theorem fpu_of_stack (h : StackAt m p (infoWords fpu dummy f vs)) :
    (.ofFn fun i => m (wordAddr p i)) = fpu := by
  apply Vector.ext
  intro i hi
  have hlen : i < (infoWords fpu dummy f vs).length := by
    rw [infoWords_length]
    omega
  have hfpu : (infoWords fpu dummy f vs)[i] = fpu[i] := by
    simp only [infoWords]
    rw [List.getElem_append_left (by rwa [Vector.length_toList]), Vector.getElem_toList]
  exact (Vector.getElem_ofFn hi).trans ((h i hlen).trans hfpu)

theorem restoreContext_ok {s : Cpu} {f : Reg → BitVec 64} (hal : (s.reg .rbp).toNat % 16 = 0)
    (h : StackAt s.mem (s.reg .rbp) (infoWords fpu dummy f
      (f .rcx :: errorCode :: rip :: cs :: rflags :: f .rsp :: ss :: vs))) :
    ∃ s', Cpu.run env restoreContext s = .ok s' ∧ s'.reg = f ∧ s'.fpu = fpu ∧ s'.rip = rip ∧
      s'.rflags = rflags ∧ s'.cs = cs.setWidth 16 ∧ s'.ss = ss.setWidth 16 := by
  obtain ⟨p, hp⟩ : ∃ p, p = s.reg .rbp := ⟨_, rfl⟩
  rw [← hp] at hal h
  let s₁ := s.set .rsp p
  let s₂ : Cpu := { s₁ with fpu := .ofFn fun i => s.mem (wordAddr p i) }
  let s₃ : Cpu := { s₂.set .rsp (p + (512 + 8)) with
    rflags := env.aluFlags (.addImm .rsp (512 + 8)) s₂ }
  have h₁ : s.exec env (.mov .rsp .rbp) = .ok s₁ := by
    subst hp
    rfl
  have h₂ : s₁.exec env (.fxrstor64 .rsp) = .ok s₂ := if_pos hal
  have h₃ : s₂.exec env (.addImm .rsp (512 + 8)) = .ok s₃ := rfl
  have hwords := h.drop 65
  rw [infoWords_drop] at hwords
  have haligned (i : Nat) : (wordAddr p i).toNat % 8 = 0 := by
    rw [wordAddr]
    bv_omega
  have hpop := Cpu.run_pop env (s := s₃) pushed.reverse (by decide) f (haligned 65) hwords
  let s₄ : Cpu := { s₃ with reg := s₃.popped pushed.reverse f }
  have hrest : StackAt s.mem (wordAddr p 79)
      (f .rcx :: errorCode :: rip :: cs :: rflags :: f .rsp :: ss :: vs) := by
    have hdrop := hwords.drop 14
    rw [wordAddr_add] at hdrop
    exact hdrop
  have hrsp : s₄.reg .rsp = wordAddr p 79 := wordAddr_add p 65 14
  have hrcx : s₄.exec env (.pop .rcx) =
      .ok ((s₄.set .rsp (s₄.reg .rsp + 8)).set .rcx (f .rcx)) := by
    have hload : s₄.load (s₄.reg .rsp) = .ok (f .rcx) := by
      rw [hrsp, Cpu.load_ok (haligned 79)]
      exact congrArg Except.ok hrest.top
    rw [Cpu.exec, hload]
    rfl
  let s₅ := (s₄.set .rsp (s₄.reg .rsp + 8)).set .rcx (f .rcx)
  let s₆ : Cpu := { s₅.set .rsp (s₅.reg .rsp + 8) with rflags := env.aluFlags (.addImm .rsp 8) s₅ }
  have hadd : s₅.exec env (.addImm .rsp 8) = .ok s₆ := rfl
  have hrsp₆ : s₆.reg .rsp = wordAddr p 81 := by
    change s₄.reg .rsp + 8 + 8 = wordAddr p 81
    rw [hrsp, wordAddr, wordAddr]
    bv_omega
  have hframe : StackAt s₆.mem (s₆.reg .rsp) (rip :: cs :: rflags :: f .rsp :: ss :: vs) := by
    have hdrop := hrest.drop 2
    rw [wordAddr_add, ← hrsp₆] at hdrop
    exact hdrop
  have hiretq := Cpu.exec_iretq env (by rw [hrsp₆]; exact haligned 81) hframe
  refine ⟨{ s₆.set .rsp (f .rsp) with
    rip := rip
    cs := cs.setWidth 16
    rflags := rflags
    ss := ss.setWidth 16 }, ?_, ?_, ?_, rfl, rfl, rfl, rfl⟩
  · have hsplit : restoreContext = [.mov .rsp .rbp, .fxrstor64 .rsp, .addImm .rsp (512 + 8)] ++
        pushed.reverse.map .pop ++ [.pop .rcx, .addImm .rsp 8, .iretq] := rfl
    rw [hsplit, Cpu.run_append, Cpu.run_append, Cpu.run_cons h₁, Cpu.run_cons h₂, Cpu.run_cons h₃,
      Cpu.run, ok_bind, hpop, ok_bind, Cpu.run_cons hrcx, Cpu.run_cons hadd, Cpu.run_cons hiretq]
    rfl
  · funext r
    cases r <;> rfl
  · exact fpu_of_stack h

def deliver (idt : Idt) (tss : BitVec 8 → BitVec 64) (vector : Fin 256) (errorCode : BitVec 64)
    (s : Cpu) : Except CpuFault Cpu :=
  let gate := idt.entries vector
  let stack := if gate.istIndex = 0 then s.reg .rsp else tss gate.istIndex
  s.deliver stack gate.segmentSelector vector errorCode

/-- From the exception to the call of `inthandler`. -/
def enter (env : Environment) (idt : Idt) (tss : BitVec 8 → BitVec 64) (vector : Fin 256)
    (errorCode : BitVec 64) (stub : List Instr) (s : Cpu) : Except CpuFault Cpu := do
  Cpu.run env (stub ++ saveContext) (← deliver idt tss vector errorCode s)

/-- From the exception to the end of `iretq`. -/
def interrupt (env : Environment) (idt : Idt) (tss : BitVec 8 → BitVec 64) (vector : Fin 256)
    (errorCode : BitVec 64) (stub : List Instr) (s : Cpu) : Except CpuFault Cpu := do
  Cpu.run env (stub ++ inthandlerCommon) (← deliver idt tss vector errorCode s)

/-- The handler sees the interrupted state, and the interrupted code does not notice. -/
structure EntrySound (env : Environment) (idt : Idt) (tss : BitVec 8 → BitVec 64)
    (vector : Fin 256) (errorCode : BitVec 64) (stub : List Instr) (s : Cpu) : Prop where
  called : ∃ c, enter env idt tss vector errorCode stub s = .ok c ∧
    (c.reg .rdi).toNat % 16 = 0 ∧ c.reg .rsi = BitVec.ofNat 64 vector ∧
    (InterruptInfo.load c.mem (c.reg .rdi)).fpuContext = s.fpu ∧
    (InterruptInfo.load c.mem (c.reg .rdi)).greg = .of s ∧
    (InterruptInfo.load c.mem (c.reg .rdi)).errorCode =
      (if Cpu.PushesErrorCode vector then errorCode else 0) ∧
    (InterruptInfo.load c.mem (c.reg .rdi)).ctx = .of s
  restored : ∀ c after, enter env idt tss vector errorCode stub s = .ok c →
    env.callee c = some after → ∃ s', interrupt env idt tss vector errorCode stub s = .ok s' ∧
      s'.reg = s.reg ∧ s'.fpu = s.fpu ∧ s'.rip = s.rip ∧ s'.rflags = s.rflags ∧ s'.cs = s.cs ∧
      s'.ss = s.ss

/-- What a stub leaves for `inthandler_common`. -/
structure Stubbed (s : Cpu) (index : Nat) (sp : BitVec 64) (vs : List (BitVec 64)) (s' : Cpu) :
    Prop where
  rsp : s'.reg .rsp = sp
  rcx : s'.reg .rcx = BitVec.ofNat 64 index
  regs : ∀ r, r ≠ .rsp → r ≠ .rcx → s'.reg r = s.reg r
  fpu : s'.fpu = s.fpu
  stack : StackAt s'.mem sp (s.reg .rcx :: vs)

theorem deliver_ok (idt : Idt) (tss : BitVec 8 → BitVec 64) (vector : Fin 256)
    (errorCode : BitVec 64) (s : Cpu) :
    ∃ stack s', deliver idt tss vector errorCode s = .ok s' ∧
      s'.reg .rsp = (stack &&& ~~~0xf) - BitVec.ofNat 64 (8 * (s.frame vector errorCode).length) ∧
      StackAt s'.mem (s'.reg .rsp) (s.frame vector errorCode) ∧
      (∀ r, r ≠ .rsp → s'.reg r = s.reg r) ∧ s'.fpu = s.fpu :=
  ⟨_, s.deliver_ok _ (idt.entries vector).segmentSelector vector errorCode⟩

theorem interruptEntrypointWithEcode_ok (index : Nat) {s : Cpu}
    (hsp : (s.reg .rsp).toNat % 8 = 0) (h : StackAt s.mem (s.reg .rsp) vs) (hlen : vs.length ≤ 7) :
    ∃ s', Cpu.run env (interruptEntrypointWithEcode index) s = .ok s' ∧
      Stubbed s index (s.reg .rsp - 8) vs s' := by
  have hpush : s.exec env (.push .rcx) = _ := Cpu.pushWord_ok hsp (s.reg .rcx)
  refine ⟨_, (Cpu.run_cons hpush).trans rfl, ?_⟩
  constructor
  case rsp => rfl
  case rcx => rfl
  case regs =>
    intro r hr hrcx
    exact (Cpu.set_of_ne _ hrcx _).trans (Cpu.set_of_ne _ hr _)
  case fpu => rfl
  case stack => exact h.push (by omega) (s.reg .rcx)

theorem interruptEntrypoint_ok (index : Nat) {s : Cpu}
    (hsp : (s.reg .rsp).toNat % 8 = 0) (h : StackAt s.mem (s.reg .rsp) vs) (hlen : vs.length ≤ 6) :
    ∃ s', Cpu.run env (interruptEntrypoint index) s = .ok s' ∧
      Stubbed s index (s.reg .rsp - 16) (0 :: vs) s' := by
  have hpush : s.exec env (.pushImm 0) = _ := Cpu.pushWord_ok hsp 0
  let s₁ : Cpu := { s.set .rsp (s.reg .rsp - 8) with
    mem := Function.update s.mem (s.reg .rsp - 8) 0 }
  have hsub : s.reg .rsp - 16 = s₁.reg .rsp - 8 := by
    change s.reg .rsp - 16 = s.reg .rsp - 8 - 8
    bv_omega
  have hsp₁ : (s₁.reg .rsp).toNat % 8 = 0 := by
    change (s.reg .rsp - 8).toNat % 8 = 0
    bv_omega
  obtain ⟨s', hrun, hstub⟩ := interruptEntrypointWithEcode_ok env index hsp₁
    (h.push (by omega) 0) (by rw [List.length_cons]; omega)
  rw [hsub]
  refine ⟨s', (Cpu.run_cons hpush).trans hrun, hstub.rsp, hstub.rcx, fun r hr hrcx => ?_, hstub.fpu,
    hstub.stack⟩
  exact (hstub.regs r hr hrcx).trans (Cpu.set_of_ne _ hr _)

theorem stub_update {entries : Fin 256 → IdtDescriptor} {index vector : Fin 256}
    {entry : IdtDescriptor} (h : (Function.update entries index entry vector).f.stub = some stub) :
    (vector = index ∧ entry.f.stub = some stub) ∨ (entries vector).f.stub = some stub := by
  rw [Function.update_apply] at h
  split at h
  · next he => exact .inl ⟨he, h⟩
  · exact .inr h

/-- A stub pushes a zero in front of the return address, unless it is one of the two for
exceptions with an error code. -/
theorem stub_cases {selector : BitVec 16} {vector : Fin 256}
    (h : ((Idt.new selector).entries vector).f.stub = some stub) :
    (vector = 8 ∧ stub = interruptEntrypoint vector) ∨
      (vector ≠ 8 ∧ ¬Cpu.PushesErrorCode vector ∧ stub = interruptEntrypoint vector) ∨
      (vector ≠ 8 ∧ Cpu.PushesErrorCode vector ∧ stub = interruptEntrypointWithEcode vector) := by
  rcases stub_update h with ⟨rfl, hstub⟩ | h
  · exact .inr (.inl ⟨by decide, by decide, (Option.some.inj hstub).symm⟩)
  rcases stub_update h with ⟨rfl, hstub⟩ | h
  · exact .inr (.inr ⟨by decide, by decide, (Option.some.inj hstub).symm⟩)
  rcases stub_update h with ⟨rfl, hstub⟩ | h
  · exact .inr (.inr ⟨by decide, by decide, (Option.some.inj hstub).symm⟩)
  rcases stub_update h with ⟨rfl, hstub⟩ | h
  · exact .inl ⟨rfl, (Option.some.inj hstub).symm⟩
  rcases stub_update h with ⟨rfl, hstub⟩ | h
  · exact .inr (.inl ⟨by decide, by decide, (Option.some.inj hstub).symm⟩)
  rcases stub_update h with ⟨rfl, hstub⟩ | h
  · exact .inr (.inl ⟨by decide, by decide, (Option.some.inj hstub).symm⟩)
  · cases h

theorem save_stubbed {s₀ s s₁ : Cpu} (hregs : ∀ r, r ≠ .rsp → s.reg r = s₀.reg r)
    (hfpu : s.fpu = s₀.fpu) (h : Stubbed s index sp vs s₁) (hsp : sp.toNat % 8 = 0)
    (hlen : vs.length ≤ 7) (hal : (sp - 632).toNat % 16 = 0) :
    ∃ c dummy, Cpu.run env saveContext s₁ = .ok c ∧ c.reg .rdi = sp - 632 ∧
      c.reg .rbp = sp - 632 ∧ c.reg .rsi = BitVec.ofNat 64 index ∧
      StackAt c.mem (sp - 632) (infoWords s₀.fpu dummy s₀.reg (s₀.reg .rcx :: vs)) := by
  have hstack := h.stack
  rw [← h.rsp] at hsp hal hstack ⊢
  obtain ⟨c, dummy, hrun, hrdi, hrbp, hrsi, hinfo⟩ := saveContext_ok env hsp hstack
    (by rw [List.length_cons]; omega) hal
  have hpushed : pushed.reverse.map s₁.reg = pushed.reverse.map s₀.reg := by
    apply List.map_congr_left
    intro r hr
    have hrsp : r ≠ .rsp := fun he => absurd (he ▸ hr) (by decide)
    have hrcx : r ≠ .rcx := fun he => absurd (he ▸ hr) (by decide)
    exact (h.regs r hrsp hrcx).trans (hregs r hrsp)
  refine ⟨c, dummy, hrun, hrdi, hrbp, hrsi.trans h.rcx, ?_⟩
  rw [infoWords, hpushed, h.fpu, hfpu, hregs .rcx (by decide)] at hinfo
  exact hinfo

def interruptedWords (vector : Fin 256) (errorCode : BitVec 64) (s : Cpu) : List (BitVec 64) :=
  [s.reg .rcx, if Cpu.PushesErrorCode vector then errorCode else 0, s.rip, s.cs.setWidth 64,
    s.rflags, s.reg .rsp, s.ss.setWidth 64]

/-- From the stub on, when it leaves the stack 8 bytes off a multiple of 16. -/
theorem enter_stubbed {idt : Idt} {tss : BitVec 8 → BitVec 64} {vector : Fin 256}
    {errorCode : BitVec 64} {s s₁ s₂ : Cpu} (hdeliver : deliver idt tss vector errorCode s = .ok s₁)
    (hregs : ∀ r, r ≠ .rsp → s₁.reg r = s.reg r) (hfpu : s₁.fpu = s.fpu)
    (hrun : Cpu.run env stub s₁ = .ok s₂) (h : Stubbed s₁ vector sp vs s₂)
    (hwords : s.reg .rcx :: vs = interruptedWords vector errorCode s) (hsp : sp.toNat % 16 = 8) :
    ∃ c p dummy, enter env idt tss vector errorCode stub s = .ok c ∧
      p.toNat % 16 = 0 ∧ c.reg .rdi = p ∧ c.reg .rbp = p ∧ c.reg .rsi = BitVec.ofNat 64 vector ∧
      StackAt c.mem p (infoWords s.fpu dummy s.reg (interruptedWords vector errorCode s)) := by
  have hlen := congrArg List.length hwords
  simp only [interruptedWords, List.length_cons, List.length_nil] at hlen
  obtain ⟨c, dummy, hsave, hrdi, hrbp, hrsi, hinfo⟩ := save_stubbed env hregs hfpu h (by omega)
    (by omega) (by bv_omega)
  rw [hwords] at hinfo
  refine ⟨c, sp - 632, dummy, ?_, by bv_omega, hrdi, hrbp, hrsi, hinfo⟩
  rw [enter, hdeliver, ok_bind, Cpu.run_append, hrun, ok_bind, hsave]

theorem enter_ok {selector : BitVec 16} {vector : Fin 256}
    (hstub : ((Idt.new selector).entries vector).f.stub = some stub) (hne : vector ≠ 8)
    (tss : BitVec 8 → BitVec 64) (errorCode : BitVec 64) (s : Cpu) :
    ∃ c p dummy, enter env (.new selector) tss vector errorCode stub s = .ok c ∧
      p.toNat % 16 = 0 ∧ c.reg .rdi = p ∧ c.reg .rbp = p ∧ c.reg .rsi = BitVec.ofNat 64 vector ∧
      StackAt c.mem p (infoWords s.fpu dummy s.reg (interruptedWords vector errorCode s)) := by
  obtain ⟨stack, s₁, hdeliver, hrsp, hstack, hregs, hfpu⟩ :=
    deliver_ok (.new selector) tss vector errorCode s
  have hbase := Cpu.align_toNat stack
  rcases stub_cases hstub with ⟨he, _⟩ | ⟨_, hcode, rfl⟩ | ⟨_, hcode, rfl⟩
  · exact absurd he hne
  · rw [Cpu.frame, if_neg hcode, List.nil_append] at hrsp hstack
    have hrsp' : s₁.reg .rsp = (stack &&& ~~~0xf) - 40 := hrsp
    have hsp : (s₁.reg .rsp).toNat % 8 = 0 := by
      rw [hrsp']
      bv_omega
    obtain ⟨s₂, hrun, hstubbed⟩ := interruptEntrypoint_ok env vector hsp hstack (by simp)
    rw [hrsp'] at hstubbed
    exact enter_stubbed env hdeliver hregs hfpu hrun hstubbed
      (by rw [interruptedWords, if_neg hcode]) (by bv_omega)
  · rw [Cpu.frame, if_pos hcode, List.singleton_append] at hrsp hstack
    have hrsp' : s₁.reg .rsp = (stack &&& ~~~0xf) - 48 := hrsp
    have hsp : (s₁.reg .rsp).toNat % 8 = 0 := by
      rw [hrsp']
      bv_omega
    obtain ⟨s₂, hrun, hstubbed⟩ :=
      interruptEntrypointWithEcode_ok env vector hsp hstack (by simp)
    rw [hrsp'] at hstubbed
    exact enter_stubbed env hdeliver hregs hfpu hrun hstubbed
      (by rw [interruptedWords, if_pos hcode]) (by bv_omega)

/-- For a double fault both the CPU and the stub push a word for the error code. -/
theorem enter_double_fault (selector : BitVec 16) (tss : BitVec 8 → BitVec 64)
    (errorCode : BitVec 64) (s : Cpu) :
    enter env (.new selector) tss 8 errorCode (interruptEntrypoint 8) s =
      .error .generalProtection := by
  obtain ⟨stack, s₁, hdeliver, hrsp, hstack, _⟩ := deliver_ok (.new selector) tss 8 errorCode s
  have hbase := Cpu.align_toNat stack
  rw [enter, hdeliver, ok_bind, Cpu.run_append]
  rw [Cpu.frame, if_pos (by decide), List.singleton_append] at hrsp hstack
  have hrsp' : s₁.reg .rsp = (stack &&& ~~~0xf) - 48 := hrsp
  have hsp : (s₁.reg .rsp).toNat % 8 = 0 := by
    rw [hrsp']
    bv_omega
  obtain ⟨s₂, hrun, hstubbed⟩ := interruptEntrypoint_ok env 8 hsp hstack (by simp)
  have hsp₂ := hstubbed.rsp
  rw [hrsp'] at hsp₂
  rw [hrun, ok_bind]
  refine saveContext_misaligned env ?_ (hstubbed.rsp ▸ hstubbed.stack) (by simp) ?_
  · rw [hsp₂]
    bv_omega
  · rw [hsp₂]
    bv_omega

theorem load_interrupted {vector : Fin 256} {errorCode : BitVec 64} {s : Cpu}
    (h : StackAt m p (infoWords s.fpu dummy s.reg (interruptedWords vector errorCode s))) :
    (InterruptInfo.load m p).fpuContext = s.fpu ∧ (InterruptInfo.load m p).greg = .of s ∧
      (InterruptInfo.load m p).errorCode =
        (if Cpu.PushesErrorCode vector then errorCode else 0) ∧
      (InterruptInfo.load m p).ctx = .of s := by
  have hdrop := h.drop 65
  rw [infoWords_drop] at hdrop
  have hword {i : Nat} {v : BitVec 64}
      (hv : (pushed.reverse.map s.reg ++ interruptedWords vector errorCode s)[i]? = some v) :
      m (wordAddr p (65 + i)) = v := by
    rw [← wordAddr_add]
    exact hdrop.word hv
  refine ⟨fpu_of_stack h, ?_, hword (i := 15) rfl, ?_⟩
  · rw [GeneralRegisterContext.of, GeneralRegisterContext.mk.injEq]
    exact ⟨hword (i := 0) rfl, hword (i := 1) rfl, hword (i := 2) rfl, hword (i := 3) rfl,
      hword (i := 4) rfl, hword (i := 5) rfl, hword (i := 6) rfl, hword (i := 7) rfl,
      hword (i := 8) rfl, hword (i := 9) rfl, hword (i := 10) rfl, hword (i := 11) rfl,
      hword (i := 12) rfl, hword (i := 13) rfl, hword (i := 14) rfl⟩
  · rw [InterruptContext.of, InterruptContext.mk.injEq]
    exact ⟨hword (i := 16) rfl, hword (i := 17) rfl, hword (i := 18) rfl, hword (i := 19) rfl,
      hword (i := 20) rfl⟩

theorem interrupt_eq (idt : Idt) (tss : BitVec 8 → BitVec 64) (vector : Fin 256)
    (errorCode : BitVec 64) (stub : List Instr) (s : Cpu) :
    interrupt env idt tss vector errorCode stub s =
      enter env idt tss vector errorCode stub s >>= Cpu.run env (.call :: restoreContext) := by
  rw [interrupt, enter]
  cases deliver idt tss vector errorCode s with
  | error e => rfl
  | ok s₁ =>
    have hsplit : stub ++ inthandlerCommon = stub ++ saveContext ++ .call :: restoreContext := by
      rw [inthandlerCommon, List.append_assoc, List.append_assoc]
      rfl
    rw [ok_bind, ok_bind, hsplit, Cpu.run_append]

variable {env}

/-- The entry through a stub is sound for every vector but that of a double fault. -/
theorem entry_sound_iff {selector : BitVec 16} {vector : Fin 256} (hcallee : SysV64 env.callee)
    (hstub : ((Idt.new selector).entries vector).f.stub = some stub)
    (tss : BitVec 8 → BitVec 64) (errorCode : BitVec 64) (s : Cpu) :
    EntrySound env (.new selector) tss vector errorCode stub s ↔ vector ≠ 8 := by
  constructor
  · intro h he
    subst he
    obtain ⟨c, hcall, _⟩ := h.called
    have hstub8 : stub = interruptEntrypoint 8 := (Option.some.inj hstub).symm
    rw [hstub8, enter_double_fault] at hcall
    cases hcall
  · intro hne
    obtain ⟨c, p, dummy, hcall, hal, hrdi, hrbp, hrsi, hinfo⟩ :=
      enter_ok env hstub hne tss errorCode s
    constructor
    case called =>
      refine ⟨c, hcall, ?_, hrsi, ?_⟩
      · rw [hrdi]
        exact hal
      · rw [hrdi]
        exact load_interrupted hinfo
    case restored =>
      intro c' after hcall' hafter
      rw [hcall] at hcall'
      cases hcall'
      have hrbp' : after.reg .rbp = p := by
        rw [hcallee.saved c after hafter .rbp (by decide), hrbp]
      have hinfo' : StackAt after.mem p (infoWords s.fpu dummy s.reg
          (interruptedWords vector errorCode s)) := by
        refine hinfo.congr fun i hi => ?_
        have hframe := hcallee.info c after hafter i (by
          rw [infoWords_length] at hi
          exact hi)
        rwa [hrdi] at hframe
      rw [← hrbp'] at hal hinfo'
      obtain ⟨s', hrun, hreg, hfpu, hrip, hrflags, hcs, hss⟩ :=
        restoreContext_ok env hal hinfo'
      have hexec : c.exec env .call = .ok after := by
        rw [Cpu.exec, hafter]
      have hwidth (v : BitVec 16) : (v.setWidth 64).setWidth 16 = v := by
        rw [BitVec.setWidth_setWidth_of_le _ (by decide), BitVec.setWidth_eq]
      refine ⟨s', ?_, hreg, hfpu, hrip, hrflags, hcs.trans (hwidth _), hss.trans (hwidth _)⟩
      rw [interrupt_eq, hcall, ok_bind, Cpu.run_cons hexec, hrun]

def returning : Environment := ⟨fun _ s => s.rflags, fun s => some (s.set .rax 0)⟩

theorem returning_sysV64 : SysV64 returning.callee := by
  constructor
  case saved =>
    intro s s' h r hr
    cases h
    exact Cpu.set_of_ne s (fun he => absurd (he ▸ hr) (by decide)) 0
  case info =>
    intro s s' h i _
    cases h
    rfl

def kernelState : Cpu := ⟨fun _ => 0x9000, fun _ => 0, .replicate 64 0, 0x1000, 8, 0x202, 0x10⟩

theorem entry_sound_iff_page_fault :
    EntrySound returning (.new 8) (fun _ => 0x8000) 14 6 (interruptEntrypointWithEcode 14)
      kernelState ↔ (14 : Fin 256) ≠ 8 :=
  entry_sound_iff returning_sysV64 rfl (fun _ => 0x8000) 6 kernelState

theorem double_fault_unsound :
    ((Idt.new 8).entries 8).f.stub = some (interruptEntrypoint 8) ∧
      enter returning (.new 8) (fun _ => 0x8000) 8 0 (interruptEntrypoint 8) kernelState =
        .error .generalProtection ∧
      ¬EntrySound returning (.new 8) (fun _ => 0x8000) 8 0 (interruptEntrypoint 8) kernelState := by
  have hfault := enter_double_fault returning 8 (fun _ => 0x8000) 0 kernelState
  refine ⟨rfl, hfault, fun h => ?_⟩
  obtain ⟨c, hcall, _⟩ := h.called
  rw [hfault] at hcall
  cases hcall

end Interrupts

end Wasabi
