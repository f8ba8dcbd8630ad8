import Wasabi.Stack
import Wasabi.Usize

namespace Wasabi
set_option autoImplicit true

inductive Reg where
  | rax
  | rcx
  | rdx
  | rbx
  | rsp
  | rbp
  | rsi
  | rdi
  | r8
  | r9
  | r10
  | r11
  | r12
  | r13
  | r14
  | r15
  deriving DecidableEq, Repr

/-- The registers, the state of the FPU as the image that `fxsave64` stores, and the memory as
words of eight bytes at the multiples of 8. -/
structure Cpu where
  reg : Reg → BitVec 64
  mem : BitVec 64 → BitVec 64
  fpu : Vector (BitVec 64) 64
  rip : BitVec 64
  cs : BitVec 16
  rflags : BitVec 64
  ss : BitVec 16

inductive CpuFault where
  | unaligned
  | generalProtection
  | stopped
  deriving DecidableEq, Repr

inductive Instr where
  | pushImm (v : BitVec 64)
  | push (r : Reg)
  | pop (r : Reg)
  | movImm (dst : Reg) (v : BitVec 64)
  | mov (dst src : Reg)
  | subImm (dst : Reg) (v : BitVec 64)
  | addImm (dst : Reg) (v : BitVec 64)
  | andImm (dst : Reg) (v : BitVec 64)
  | fxsave64 (base : Reg)
  | fxrstor64 (base : Reg)
  | call
  | iretq

/-- What the instructions here do not fix: the flags after an arithmetic instruction, and what a
called function does, if it returns. -/
structure Environment where
  aluFlags : Instr → Cpu → BitVec 64
  callee : Cpu → Option Cpu

namespace Cpu

def set (s : Cpu) (r : Reg) (v : BitVec 64) : Cpu := { s with reg := Function.update s.reg r v }

def pushWord (v : BitVec 64) (s : Cpu) : Except CpuFault Cpu :=
  let sp := s.reg .rsp - 8
  if sp.toNat % 8 = 0 then .ok { s.set .rsp sp with mem := Function.update s.mem sp v }
  else .error .unaligned

def load (s : Cpu) (a : BitVec 64) : Except CpuFault (BitVec 64) :=
  if a.toNat % 8 = 0 then .ok (s.mem a) else .error .unaligned

def exec (env : Environment) (i : Instr) (s : Cpu) : Except CpuFault Cpu :=
  match i with
  | .pushImm v => s.pushWord v
  | .push r => s.pushWord (s.reg r)
  | .pop r => do return (s.set .rsp (s.reg .rsp + 8)).set r (← s.load (s.reg .rsp))
  | .movImm dst v => .ok (s.set dst v)
  | .mov dst src => .ok (s.set dst (s.reg src))
  | .subImm dst v => .ok { s.set dst (s.reg dst - v) with rflags := env.aluFlags i s }
  | .addImm dst v => .ok { s.set dst (s.reg dst + v) with rflags := env.aluFlags i s }
  | .andImm dst v => .ok { s.set dst (s.reg dst &&& v) with rflags := env.aluFlags i s }
  | .fxsave64 base =>
    if (s.reg base).toNat % 16 = 0 then
      .ok { s with mem := blockStore s.mem (s.reg base) s.fpu.toList }
    else .error .generalProtection
  | .fxrstor64 base =>
    if (s.reg base).toNat % 16 = 0 then
      .ok { s with fpu := .ofFn fun i => s.mem (wordAddr (s.reg base) i) }
    else .error .generalProtection
  | .call =>
    match env.callee s with
    | some s' => .ok s'
    | none => .error .stopped
  | .iretq => do
    let sp := s.reg .rsp
    let rip ← s.load sp
    let cs ← s.load (wordAddr sp 1)
    let rflags ← s.load (wordAddr sp 2)
    let rsp ← s.load (wordAddr sp 3)
    let ss ← s.load (wordAddr sp 4)
    return { s.set .rsp rsp with rip, cs := cs.setWidth 16, rflags, ss := ss.setWidth 16 }

def run (env : Environment) : List Instr → Cpu → Except CpuFault Cpu
  | [], s => .ok s
  | i :: is, s => do run env is (← s.exec env i)

def pushAll : List (BitVec 64) → Cpu → Except CpuFault Cpu
  | [], s => .ok s
  | v :: vs, s => do pushAll vs (← s.pushWord v)

def PushesErrorCode (vector : Nat) : Prop := vector = 8 ∨ (10 ≤ vector ∧ vector ≤ 14) ∨ vector = 17

instance (vector : Nat) : Decidable (PushesErrorCode vector) :=
  inferInstanceAs (Decidable (_ ∨ _))

/-- Delivery of an interrupt through a gate for an interrupt handler, on the stack that ends at
`stack`. It clears TF, IF, NT, RF and VM. -/
def deliver (stack : BitVec 64) (selector : BitVec 16) (vector : Nat) (errorCode : BitVec 64)
    (s : Cpu) : Except CpuFault Cpu := do
  let frame := [s.ss.setWidth 64, s.reg .rsp, s.rflags, s.cs.setWidth 64, s.rip]
  let frame := if PushesErrorCode vector then frame ++ [errorCode] else frame
  let s ← (s.set .rsp (stack &&& ~~~0xf)).pushAll frame
  return { s with cs := selector, rflags := s.rflags &&& ~~~0x34300 }

variable {env : Environment}

theorem run_append (is js : List Instr) (s : Cpu) :
    run env (is ++ js) s = run env is s >>= run env js := by
  induction is generalizing s with
  | nil => rfl
  | cons i is ih =>
    rw [List.cons_append, run, run]
    cases s.exec env i with
    | error e => rfl
    | ok s' => exact ih s'

theorem run_cons {s s' : Cpu} (h : s.exec env i = .ok s') :
    run env (i :: is) s = run env is s' := by
  rw [run, h, ok_bind]

theorem pushWord_ok {s : Cpu} (h : (s.reg .rsp).toNat % 8 = 0) (v : BitVec 64) :
    s.pushWord v = .ok { s.set .rsp (s.reg .rsp - 8) with
      mem := Function.update s.mem (s.reg .rsp - 8) v } :=
  if_pos (by bv_omega)

theorem load_ok {s : Cpu} (h : a.toNat % 8 = 0) : s.load a = .ok (s.mem a) := if_pos h

@[simp] theorem set_self (s : Cpu) (r : Reg) (v : BitVec 64) : (s.set r v).reg r = v :=
  Function.update_self ..

theorem set_of_ne (s : Cpu) (h : r' ≠ r) (v : BitVec 64) : (s.set r v).reg r' = s.reg r' :=
  Function.update_of_ne h ..

theorem set_set (s : Cpu) (r : Reg) (v w : BitVec 64) : (s.set r v).set r w = s.set r w := by
  simp only [set, Function.update_idem]

theorem pushAll_ok (ws : List (BitVec 64)) {s : Cpu} (hsp : (s.reg .rsp).toNat % 8 = 0)
    (h : StackAt s.mem (s.reg .rsp) vs) (hlen : 8 * (ws.length + vs.length) < 2 ^ 64) :
    ∃ m, s.pushAll ws =
        .ok { s.set .rsp (s.reg .rsp - BitVec.ofNat 64 (8 * ws.length)) with mem := m } ∧
      StackAt m (s.reg .rsp - BitVec.ofNat 64 (8 * ws.length)) (ws.reverse ++ vs) := by
  induction ws generalizing s vs with
  | nil =>
    have hzero : s.reg .rsp - BitVec.ofNat 64 (8 * ([] : List (BitVec 64)).length) = s.reg .rsp :=
      BitVec.sub_zero _
    rw [hzero]
    exact ⟨s.mem, by rw [set, Function.update_eq_self]; rfl, h⟩
  | cons w ws ih =>
    rw [List.length_cons] at hlen ⊢
    have hpush := h.push (by omega) w
    have hsub : s.reg .rsp - 8 - BitVec.ofNat 64 (8 * ws.length) =
        s.reg .rsp - BitVec.ofNat 64 (8 * (ws.length + 1)) := by bv_omega
    obtain ⟨m, hm, hstack⟩ := ih (s := { s.set .rsp (s.reg .rsp - 8) with
      mem := Function.update s.mem (s.reg .rsp - 8) w })
      (by rw [set_self]; bv_omega) (by rw [set_self]; exact hpush)
      (by rw [List.length_cons]; omega)
    rw [set_self, hsub] at hm hstack
    refine ⟨m, ?_, ?_⟩
    · rw [pushAll, pushWord_ok hsp, ok_bind, hm]
      simp only [set, Function.update_idem]
    · rw [List.reverse_cons, List.append_assoc]
      exact hstack

theorem run_push (rs : List Reg) (hrs : .rsp ∉ rs) (s : Cpu) :
    run env (rs.map .push) s = s.pushAll (rs.map s.reg) := by
  induction rs generalizing s with
  | nil => rfl
  | cons r rs ih =>
    rw [List.mem_cons, not_or] at hrs
    rw [List.map_cons, List.map_cons, run, pushAll, exec]
    cases hpush : s.pushWord (s.reg r) with
    | error e => rfl
    | ok s' =>
      have hreg : rs.map s'.reg = rs.map s.reg := by
        apply List.map_congr_left
        intro r' hr'
        have hne : r' ≠ .rsp := fun he => hrs.2 (he ▸ hr')
        rw [pushWord] at hpush
        split at hpush
        · cases hpush
          exact set_of_ne s hne _
        · cases hpush
      rw [ok_bind, ok_bind, ih hrs.2, hreg]

def popped (s : Cpu) (rs : List Reg) (f : Reg → BitVec 64) (r : Reg) : BitVec 64 :=
  if r ∈ rs then f r else if r = .rsp then wordAddr (s.reg .rsp) rs.length else s.reg r

theorem popped_nil (s : Cpu) (f : Reg → BitVec 64) : s.popped [] f = s.reg := by
  funext r
  rw [popped, if_neg List.not_mem_nil, List.length_nil, wordAddr_zero]
  split
  · next he => rw [he]
  · rfl

theorem popped_cons (s : Cpu) (rs : List Reg) (f : Reg → BitVec 64) (hr : .rsp ≠ r) :
    ((s.set .rsp (s.reg .rsp + 8)).set r (f r)).popped rs f = s.popped (r :: rs) f := by
  have hsp : ((s.set .rsp (s.reg .rsp + 8)).set r (f r)).reg .rsp = wordAddr (s.reg .rsp) 1 := by
    rw [set_of_ne _ hr, set_self]
    rfl
  funext r'
  rw [popped, popped, hsp, wordAddr_add, List.length_cons, Nat.add_comm 1]
  by_cases hmem : r' ∈ rs
  · rw [if_pos hmem, if_pos (List.mem_cons_of_mem _ hmem)]
  · rw [if_neg hmem]
    by_cases he : r' = r
    · subst he
      rw [if_neg hr.symm, if_pos List.mem_cons_self, set_self]
    · have hcons : r' ∉ r :: rs := by
        rw [List.mem_cons, not_or]
        exact ⟨he, hmem⟩
      rw [if_neg hcons]
      by_cases hrsp : r' = .rsp
      · rw [if_pos hrsp, if_pos hrsp]
      · rw [if_neg hrsp, if_neg hrsp, set_of_ne _ he, set_of_ne _ hrsp]

theorem run_pop (env : Environment) (rs : List Reg) (hrs : .rsp ∉ rs) (f : Reg → BitVec 64)
    {s : Cpu} (hsp : (s.reg .rsp).toNat % 8 = 0) (h : StackAt s.mem (s.reg .rsp) (rs.map f ++ vs)) :
    run env (rs.map .pop) s = .ok { s with reg := s.popped rs f } := by
  induction rs generalizing s with
  | nil =>
    rw [popped_nil]
    rfl
  | cons r rs ih =>
    rw [List.mem_cons, not_or] at hrs
    have hsp' : ((s.set .rsp (s.reg .rsp + 8)).set r (f r)).reg .rsp = s.reg .rsp + 8 := by
      rw [set_of_ne _ hrs.1, set_self]
    rw [List.map_cons, run, exec, load_ok hsp, h.top]
    simp only [ok_bind]
    refine (ih hrs.2 (by rw [hsp']; bv_omega) (by rw [hsp']; exact h.tail)).trans ?_
    rw [popped_cons s rs f hrs.1]
    rfl

theorem exec_iretq (env : Environment) {s : Cpu} (hsp : (s.reg .rsp).toNat % 8 = 0)
    (h : StackAt s.mem (s.reg .rsp) (v₁ :: v₂ :: v₃ :: v₄ :: v₅ :: vs)) :
    s.exec env .iretq = .ok { s.set .rsp v₄ with
      rip := v₁
      cs := v₂.setWidth 16
      rflags := v₃
      ss := v₅.setWidth 16 } := by
  have haligned (i : Nat) : (wordAddr (s.reg .rsp) i).toNat % 8 = 0 := by
    rw [wordAddr]
    bv_omega
  rw [exec, load_ok hsp, load_ok (haligned 1), load_ok (haligned 2), load_ok (haligned 3),
    load_ok (haligned 4), h.top, h.word (i := 1) rfl, h.word (i := 2) rfl, h.word (i := 3) rfl,
    h.word (i := 4) rfl]
  rfl

theorem align_toNat (a : BitVec 64) : (a &&& ~~~0xf).toNat = a.toNat / 16 * 16 := by
  have hmask : (~~~0xf : BitVec 64).toNat = (2 ^ 64 - 1) ^^^ (2 ^ 4 - 1) := by decide
  rw [BitVec.toNat_and, hmask]
  exact land_xor_pow a.isLt (by decide)

/-- The words that a delivery leaves on the stack, last pushed first. -/
def frame (vector : Nat) (errorCode : BitVec 64) (s : Cpu) : List (BitVec 64) :=
  (if PushesErrorCode vector then [errorCode] else []) ++
    [s.rip, s.cs.setWidth 64, s.rflags, s.reg .rsp, s.ss.setWidth 64]

theorem frame_length_le (vector : Nat) (errorCode : BitVec 64) (s : Cpu) :
    (s.frame vector errorCode).length ≤ 6 := by
  rw [frame]
  split <;> simp

theorem deliver_ok (stack : BitVec 64) (selector : BitVec 16) (vector : Nat)
    (errorCode : BitVec 64) (s : Cpu) : ∃ s', s.deliver stack selector vector errorCode = .ok s' ∧
      s'.reg .rsp = (stack &&& ~~~0xf) - BitVec.ofNat 64 (8 * (s.frame vector errorCode).length) ∧
      StackAt s'.mem (s'.reg .rsp) (s.frame vector errorCode) ∧
      (∀ r, r ≠ .rsp → s'.reg r = s.reg r) ∧ s'.fpu = s.fpu := by
  have hlen : (s.frame vector errorCode).reverse.length = (s.frame vector errorCode).length :=
    List.length_reverse
  have hle := s.frame_length_le vector errorCode
  have hbase := align_toNat stack
  obtain ⟨m, hpush, hstack⟩ := pushAll_ok (s.frame vector errorCode).reverse
    (s := s.set .rsp (stack &&& ~~~0xf)) (by rw [set_self]; omega) StackAt.nil
    (by rw [hlen, List.length_nil]; omega)
  rw [hlen, set_self, set_set] at hpush
  rw [hlen, set_self, List.reverse_reverse, List.append_nil] at hstack
  have hframe : (s.frame vector errorCode).reverse =
      if PushesErrorCode vector then
        [s.ss.setWidth 64, s.reg .rsp, s.rflags, s.cs.setWidth 64, s.rip] ++ [errorCode]
      else [s.ss.setWidth 64, s.reg .rsp, s.rflags, s.cs.setWidth 64, s.rip] := by
    rw [frame]
    split <;> rfl
  let sp := (stack &&& ~~~0xf) - BitVec.ofNat 64 (8 * (s.frame vector errorCode).length)
  have hrun : s.deliver stack selector vector errorCode = .ok { s.set .rsp sp with
      mem := m
      cs := selector
      rflags := s.rflags &&& ~~~0x34300 } := by
    rw [deliver, ← hframe, hpush]
    rfl
  have hsp : (s.set .rsp sp).reg .rsp = sp := set_self s .rsp sp
  refine ⟨_, hrun, hsp, ?_, fun r hr => set_of_ne s hr sp, rfl⟩
  rw [hsp]
  exact hstack

end Cpu

end Wasabi
