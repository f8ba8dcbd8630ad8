import Wasabi.Interrupts

namespace Wasabi
set_option autoImplicit true

/-- The stack pointer went down by `n`, and only words between the two places were written. -/
structure Lowers (n : Nat) (s s' : Cpu) : Prop where
  rsp : (s'.reg .rsp).toNat + n = (s.reg .rsp).toNat
  frame : ∀ a : BitVec 64, a.toNat < (s'.reg .rsp).toNat ∨ (s.reg .rsp).toNat ≤ a.toNat →
    s'.mem a = s.mem a

/-- How far an instruction on the way to a handler lowers the stack pointer. -/
def Instr.depth : Instr → Option Nat
  | .pushImm _ => some 8
  | .push _ => some 8
  | .movImm dst _ => if dst = .rsp then none else some 0
  | .mov dst _ => if dst = .rsp then none else some 0
  | .subImm dst v => if dst = .rsp then some v.toNat else none
  | _ => none

namespace Lowers
variable {s s' s'' : Cpu} {env : Environment}

theorem refl (s : Cpu) : Lowers 0 s s := ⟨rfl, fun _ _ => rfl⟩

theorem trans (h : Lowers n s s') (h' : Lowers k s' s'') : Lowers (n + k) s s'' := by
  have hrsp := h.rsp
  have hrsp' := h'.rsp
  refine ⟨by omega, fun a ha => ?_⟩
  rw [h'.frame a (by omega), h.frame a (by omega)]

theorem congr (h : Lowers n s s') (hrsp : s''.reg .rsp = s'.reg .rsp) (hmem : s''.mem = s'.mem) :
    Lowers n s s'' := by
  constructor
  case rsp => rw [hrsp, h.rsp]
  case frame =>
    intro a ha
    rw [hrsp] at ha
    rw [hmem, h.frame a ha]

theorem pushWord (h : s.pushWord v = .ok s') (hroom : 8 ≤ (s.reg .rsp).toNat) : Lowers 8 s s' := by
  rw [Cpu.pushWord] at h
  split at h
  · cases h
    have hsub : (s.reg .rsp - 8).toNat + 8 = (s.reg .rsp).toNat := by bv_omega
    refine ⟨hsub, fun a ha => Function.update_of_ne ?_ _ _⟩
    change a.toNat < (s.reg .rsp - 8).toNat ∨ _ at ha
    rintro rfl
    omega
  · cases h

theorem pushAll {ws : List (BitVec 64)} (h : s.pushAll ws = .ok s')
    (hroom : 8 * ws.length ≤ (s.reg .rsp).toNat) : Lowers (8 * ws.length) s s' := by
  induction ws generalizing s with
  | nil =>
    cases h
    exact refl _
  | cons w ws ih =>
    obtain ⟨s₁, hpush, h⟩ := exists_of_bind h
    rw [List.length_cons] at hroom ⊢
    have hfirst := pushWord hpush (by omega)
    have hrsp := hfirst.rsp
    have hrest := ih h (by omega)
    have htotal : 8 * (ws.length + 1) = 8 + 8 * ws.length := by omega
    rw [htotal]
    exact hfirst.trans hrest

theorem exec {i : Instr} (hi : i.depth = some n) (h : s.exec env i = .ok s')
    (hroom : n ≤ (s.reg .rsp).toNat) : Lowers n s s' := by
  cases i with
  | pushImm v =>
    cases hi
    exact pushWord h hroom
  | push r =>
    cases hi
    exact pushWord h hroom
  | movImm dst v =>
    rw [Instr.depth] at hi
    split at hi
    · cases hi
    · next hne =>
      cases hi
      cases h
      exact (refl s).congr (Cpu.set_of_ne s (Ne.symm hne) v) rfl
  | mov dst src =>
    rw [Instr.depth] at hi
    split at hi
    · cases hi
    · next hne =>
      cases hi
      cases h
      exact (refl s).congr (Cpu.set_of_ne s (Ne.symm hne) _) rfl
  | subImm dst v =>
    rw [Instr.depth] at hi
    split at hi
    · next he =>
      subst he
      cases hi
      cases h
      refine ⟨?_, fun a _ => rfl⟩
      change (s.reg .rsp - v).toNat + v.toNat = _
      bv_omega
    · cases hi
  | pop r => cases hi
  | addImm dst v => cases hi
  | andImm dst v => cases hi
  | fxsave64 base => cases hi
  | fxrstor64 base => cases hi
  | call => cases hi
  | iretq => cases hi

theorem run {is : List Instr} (hi : is.mapM Instr.depth = some ns) (h : Cpu.run env is s = .ok s')
    (hroom : ns.sum ≤ (s.reg .rsp).toNat) : Lowers ns.sum s s' := by
  induction is generalizing s ns with
  | nil =>
    cases hi
    cases h
    exact refl _
  | cons i is ih =>
    rw [List.mapM_cons] at hi
    obtain ⟨n, hn, hi⟩ := Option.bind_eq_some_iff.1 hi
    obtain ⟨ns', hns, hi⟩ := Option.bind_eq_some_iff.1 hi
    cases hi
    obtain ⟨s₁, hfirst, h⟩ := exists_of_bind h
    rw [List.sum_cons] at hroom ⊢
    have hlow := exec hn hfirst (by omega)
    have hrsp := hlow.rsp
    exact hlow.trans (ih hns h (by omega))

theorem block (h : Lowers n s s') {ws : List (BitVec 64)} (hws : 8 * ws.length ≤ n) :
    Lowers n s { s' with mem := blockStore s'.mem (s'.reg .rsp) ws } := by
  have hrsp := h.rsp
  refine ⟨h.rsp, fun a ha => ?_⟩
  change a.toNat < (s'.reg .rsp).toNat ∨ _ at ha
  refine (dif_neg fun hin => ?_).trans (h.frame a ha)
  have hlt := (s.reg .rsp).isLt
  obtain ⟨_, hin⟩ := hin
  rw [BitVec.toNat_sub] at hin
  omega

theorem align (h : Lowers n s s') (hrsp : s''.reg .rsp = s'.reg .rsp &&& -16)
    (hmem : s''.mem = s'.mem) : ∃ k ≤ n + 15, Lowers k s s'' := by
  have hmask : (-16 : BitVec 64) = ~~~0xf := by decide
  have halign := Cpu.align_toNat (s'.reg .rsp)
  have hlow := h.rsp
  rw [← hmask, ← hrsp] at halign
  refine ⟨n + (s'.reg .rsp).toNat % 16, by omega, by omega, fun a ha => ?_⟩
  rw [hmem, h.frame a (by omega)]

end Lowers

namespace Interrupts
variable {env : Environment} {s c : Cpu}

theorem saveContext_lowers (h : Cpu.run env saveContext s = .ok c)
    (hroom : 647 ≤ (s.reg .rsp).toNat) : ∃ k ≤ 647, Lowers k s c := by
  have hsplit : saveContext = (pushed.map .push ++ [.subImm .rsp (512 + 8)]) ++
      [.fxsave64 .rsp, .mov .rdi .rsp, .mov .rbp .rsp, .andImm .rsp (-16), .mov .rsi .rcx] := rfl
  have hdepth : (pushed.map Instr.push ++ [Instr.subImm .rsp (512 + 8)]).mapM Instr.depth =
      some (List.replicate 14 8 ++ [520]) := rfl
  have hsum : (List.replicate 14 8 ++ [520]).sum = 632 := rfl
  rw [hsplit, Cpu.run_append] at h
  obtain ⟨s₁, hpushes, h⟩ := exists_of_bind h
  have hlow := Lowers.run hdepth hpushes (by omega)
  rw [hsum] at hlow
  obtain ⟨s₂, hsave, h⟩ := exists_of_bind h
  rw [Cpu.exec] at hsave
  split at hsave
  · cases hsave
    cases h
    have hwords : 8 * s₁.fpu.toList.length ≤ 632 := by
      rw [Vector.length_toList]
      decide
    have hstored := hlow.block hwords
    exact hstored.align rfl rfl
  · cases hsave

theorem istIndex_update {entries : Fin 256 → IdtDescriptor} {entry : IdtDescriptor}
    (he : entry.istIndex = 1 ∨ entry.istIndex = 2)
    (h : ∀ v, (entries v).istIndex = 1 ∨ (entries v).istIndex = 2) (index v : Fin 256) :
    (Function.update entries index entry v).istIndex = 1 ∨
      (Function.update entries index entry v).istIndex = 2 := by
  rw [Function.update_apply]
  split
  · exact he
  · exact h v

theorem istIndex_cases (selector : BitVec 16) (vector : Fin 256) :
    ((Idt.new selector).entries vector).istIndex = 1 ∨
      ((Idt.new selector).entries vector).istIndex = 2 := by
  refine istIndex_update (.inl rfl) (fun v => ?_) 32 vector
  refine istIndex_update (.inl rfl) (fun v => ?_) 14 v
  refine istIndex_update (.inl rfl) (fun v => ?_) 13 v
  refine istIndex_update (.inr rfl) (fun v => ?_) 8 v
  refine istIndex_update (.inl rfl) (fun v => ?_) 6 v
  refine istIndex_update (.inl rfl) (fun v => ?_) 3 v
  exact .inl rfl

theorem stub_depth {selector : BitVec 16} {vector : Fin 256}
    (h : ((Idt.new selector).entries vector).f.stub = some stub) :
    ∃ ns, stub.mapM Instr.depth = some ns ∧ ns.sum ≤ 16 := by
  rcases stub_cases h with ⟨_, rfl⟩ | ⟨_, _, rfl⟩ | ⟨_, _, rfl⟩
  · exact ⟨[8, 8, 0], rfl, by decide⟩
  · exact ⟨[8, 8, 0], rfl, by decide⟩
  · exact ⟨[8, 0], rfl, by decide⟩

/-- Up to the call of the handler only the top of the stack of the gate is written. -/
theorem enter_frame {selector : BitVec 16} {vector : Fin 256}
    {tss : BitVec 8 → BitVec 64} {errorCode : BitVec 64}
    (hstub : ((Idt.new selector).entries vector).f.stub = some stub)
    (h : enter env (.new selector) tss vector errorCode stub s = .ok c)
    (hstack : tss ((Idt.new selector).entries vector).istIndex = top)
    (halign : top.toNat % 16 = 0) (hroom : 711 ≤ top.toNat) (a : BitVec 64)
    (ha : a.toNat < top.toNat - 711 ∨ top.toNat ≤ a.toNat) : c.mem a = s.mem a := by
  have hne : ((Idt.new selector).entries vector).istIndex ≠ 0 := by
    rcases istIndex_cases selector vector with he | he <;> rw [he] <;> decide
  obtain ⟨ns, hdepth, hsum⟩ := stub_depth hstub
  obtain ⟨s₁, hdeliver, h⟩ := exists_of_bind h
  rw [deliver, if_neg hne, hstack, Cpu.deliver] at hdeliver
  obtain ⟨s₀, hpush, hdeliver⟩ := exists_of_bind hdeliver
  cases hdeliver
  rw [Cpu.run_append] at h
  obtain ⟨s₂, hrun, hsave⟩ := exists_of_bind h
  have htop : (s.set .rsp (top &&& ~~~0xf)).reg .rsp = top := by
    rw [Cpu.set_self]
    apply BitVec.eq_of_toNat_eq
    rw [Cpu.align_toNat]
    omega
  have hlen : (if Cpu.PushesErrorCode vector then
      [s.ss.setWidth 64, s.reg .rsp, s.rflags, s.cs.setWidth 64, s.rip] ++ [errorCode]
      else [s.ss.setWidth 64, s.reg .rsp, s.rflags, s.cs.setWidth 64, s.rip]).length ≤ 6 := by
    split <;> simp
  have hframe := Lowers.pushAll hpush (by rw [htop]; omega)
  have hrsp := hframe.rsp
  rw [htop] at hrsp
  have hentered : Lowers _ _ { s₀ with
      cs := ((Idt.new selector).entries vector).segmentSelector
      rflags := s₀.rflags &&& ~~~0x34300 } := hframe.congr rfl rfl
  have hstubbed := hentered.trans (Lowers.run hdepth hrun (by dsimp only; omega))
  have hrsp₂ := hstubbed.rsp
  rw [htop] at hrsp₂
  obtain ⟨k, hk, hsaved⟩ := saveContext_lowers hsave (by omega)
  have hall := hstubbed.trans hsaved
  have hend := hall.rsp
  rw [htop] at hend
  refine hall.frame a ?_
  rw [htop]
  omega

end Interrupts

end Wasabi
