import Wasabi.Boxes
import Wasabi.EntryStack
import Wasabi.SegmentTables

namespace Wasabi
set_option autoImplicit true

structure Block.Stores (b : Block) (m : Mem) (bytes : List UInt8) : Prop where
  fits : bytes.length ≤ b.layout.size
  read : ∀ a n, a + n ≤ bytes.length → readLe m (b.ptr + a) n = readLe (listMem bytes) a n

theorem Block.Stores.congr {b : Block} (h : b.Stores m bytes)
    (hm : SameOn m m' b.ptr b.layout.size) : b.Stores m' bytes := by
  have hfits := h.fits
  refine ⟨h.fits, fun a n han => ?_⟩
  rw [← h.read a n han]
  exact readLe_congr (hm.mono (by omega) (by omega))

theorem Block.Stores.byte {b : Block} (h : b.Stores m bytes) (hi : i < bytes.length) :
    m (b.ptr + i) = listMem bytes i := by
  have hread := congrArg UInt8.ofNat (h.read i 1 (by omega))
  have hbyte (m : Mem) (a : Nat) : UInt8.ofNat (readLe m a 1) = m a := by
    simpa using byte_readLe m a 1 (i := 0) (by decide)
  rwa [hbyte, hbyte] at hread

theorem Block.Stores.set {b : Block} (h : b.Stores m bytes) (hi : i < bytes.length) (v : Nat) :
    b.Stores (writeLe m (b.ptr + i) 1 v) (bytes.set i (UInt8.ofNat v)) := by
  have hlen : (bytes.set i (UInt8.ofNat v)).length = bytes.length := List.length_set
  refine ⟨hlen ▸ h.fits, fun a n han => ?_⟩
  rw [← readLe_storeBytes (m := writeLe m (b.ptr + i) 1 v) (p := b.ptr) _ han]
  refine (readLe_congr fun x hlo hhi => ?_).symm
  rw [storeBytes, if_pos (by omega), listMem, List.getD_eq_getElem _ _ (by omega),
    List.getElem_set]
  by_cases hx : i = x - b.ptr
  · rw [if_pos hx, writeLe, if_pos (by omega), show x - (b.ptr + i) = 0 by omega, pow_zero,
      Nat.div_one]
  · have hbyte := h.byte (i := x - b.ptr) (by omega)
    rw [Nat.add_sub_cancel' (by omega), listMem, List.getD_eq_getElem _ _ (by omega)] at hbyte
    rw [if_neg hx, writeLe, if_neg (by omega), hbyte]

/-- `Box::pin` of a value of which the bytes are known. -/
def boxPin (layout : Layout) (bytes : List UInt8) : BoxM Block := do
  let b ← Allocator.allocWithOptions layout
  modifyMem fun m => storeBytes m b.ptr bytes
  return b

/-- The layouts of `packed` structures have no alignment. -/
def packedLayout (size : Nat) (h : size < 2 ^ 63) : Layout := ⟨size, 1, ⟨0, rfl⟩, h⟩

def handlerStackSize : Nat := 64 * 1024

def layoutStack : Layout := packedLayout handlerStackSize (by decide)
def layoutTss : Layout := packedLayout 104 (by decide)
def layoutGdt : Layout := packedLayout 40 (by decide)
def layoutIdt : Layout := packedLayout 4096 (by decide)

namespace TaskStateSegment64

def top (stack : Block) : Nat := stack.ptr + handlerStackSize

def allocInterruptStack : BoxM Block := do
  let stack ← Allocator.allocWithOptions layoutStack
  modifyMem fun m => zeroFill m stack.ptr handlerStackSize
  return stack

def allocStacks : Nat → BoxM (List Block)
  | 0 => return []
  | n + 1 => do
    let stack ← allocInterruptStack
    return stack :: (← allocStacks n)

end TaskStateSegment64

/-- What `init_exceptions` leaves in memory for the processor. -/
structure CpuTables where
  rsp0 : Block
  ist : List Block
  tss : Block
  gdt : Block
  idt : Block

/-- The objects that are never given back. -/
def CpuTables.blocks (t : CpuTables) : List Block := t.idt :: t.gdt :: t.tss :: t.rsp0 :: t.ist

/-- `init_exceptions`, with what its instructions leave in memory. -/
def initExceptions (addr : HandlerFn → BitVec 64) : BoxM CpuTables := do
  let rsp0 ← TaskStateSegment64.allocInterruptStack
  let ist ← TaskStateSegment64.allocStacks 7
  let tss ← boxPin layoutTss
    (TaskStateSegment64Inner.bytes (TaskStateSegment64.top rsp0)
      (0 :: ist.map TaskStateSegment64.top))
  let gdt ← boxPin layoutGdt (Gdt.default tss.ptr)
  modifyMem fun m => Gdt.load m gdt.ptr
  let idt ← boxPin layoutIdt ((Idt.new kernelCs).bytes addr)
  return { rsp0, ist, tss, gdt, idt }

structure CpuTables.Installed (t : CpuTables) (addr : HandlerFn → BitVec 64) (m : Mem) : Prop where
  count : t.ist.length = 7
  layout : ∀ stack ∈ t.rsp0 :: t.ist, stack.layout = layoutStack
  tss : t.tss.Stores m (TaskStateSegment64Inner.bytes (TaskStateSegment64.top t.rsp0)
    (0 :: t.ist.map TaskStateSegment64.top))
  gdt : t.gdt.Stores m (Gdt.loaded t.tss.ptr)
  idt : t.idt.Stores m ((Idt.new kernelCs).bytes addr)

section
variable {regions : List (Nat × Nat)} {os : List Block} {room last : Nat} {s : HeapRun}
  {fails : Fault → HeapRun → Prop}

theorem boxPin_ends {post : Block → HeapRun → Prop} {bytes : List UInt8}
    (h : HeapOwns regions os room last s) (hl : 0 < l.size) (hfits : bytes.length ≤ l.size)
    (hpost : ∀ b last' s', b.layout = l → HeapOwns regions (b :: os) (room - l.needed) last' s' →
      SameBlocks os s s' → b.Stores s'.heap.mem bytes → post b s')
    (hfail : ∀ s, room < l.needed → fails .outOfMemory s) :
    Ends (boxPin l bytes) s post fails := by
  refine Ends.bind (Allocator.allocWithOptions_ends h hl (fun b s' hbl hb => ?_) (hfail _))
  subst hbl
  have hinside : ∀ a, (a < b.ptr ∨ b.ptr + b.layout.size ≤ a) →
      storeBytes s'.heap.mem b.ptr bytes a = s'.heap.mem a := fun a ha => if_neg (by omega)
  obtain ⟨howns, hsame⟩ := hb.owns.write [] hinside
  refine Ends.bind (Ends.modify (Ends.pure ?_))
  exact hpost b _ _ rfl howns (hb.same.trans hsame)
    ⟨hfits, fun a n han => readLe_storeBytes bytes han⟩

theorem allocInterruptStack_ends {post : Block → HeapRun → Prop}
    (h : HeapOwns regions os room last s)
    (hpost : ∀ b last' s', b.layout = layoutStack →
      HeapOwns regions (b :: os) (room - layoutStack.needed) last' s' → SameBlocks os s s' →
      post b s')
    (hfail : ∀ s, room < layoutStack.needed → fails .outOfMemory s) :
    Ends TaskStateSegment64.allocInterruptStack s post fails := by
  refine Ends.bind (Allocator.allocWithOptions_ends h (by decide) (fun b s' hbl hb => ?_) (hfail _))
  have hsize : b.layout.size = handlerStackSize := by
    rw [hbl]
    rfl
  have hinside : ∀ a, (a < b.ptr ∨ b.ptr + b.layout.size ≤ a) →
      zeroFill s'.heap.mem b.ptr handlerStackSize a = s'.heap.mem a :=
    fun a ha => if_neg (by omega)
  obtain ⟨howns, hsame⟩ := hb.owns.write [] hinside
  refine Ends.bind (Ends.modify (Ends.pure ?_))
  exact hpost b _ _ hbl (hbl ▸ howns) (hb.same.trans hsame)

theorem allocStacks_ends {post : List Block → HeapRun → Prop} (n : Nat)
    (h : HeapOwns regions os room last s)
    (hpost : ∀ ist last' s', ist.length = n → (∀ b ∈ ist, b.layout = layoutStack) →
      HeapOwns regions (ist ++ os) (room - n * layoutStack.needed) last' s' → SameBlocks os s s' →
      post ist s')
    (hfail : ∀ s, room < n * layoutStack.needed → fails .outOfMemory s) :
    Ends (TaskStateSegment64.allocStacks n) s post fails := by
  induction n generalizing os room last s post with
  | zero =>
    refine Ends.pure (hpost [] last s rfl (List.forall_mem_nil _) ?_ (.refl _ _))
    exact h.less (Nat.sub_le _ _)
  | succ n ih =>
    rw [Nat.succ_mul] at hpost hfail
    refine Ends.bind (allocInterruptStack_ends h (fun b last' s' hb howns hsame => ?_)
      fun s hlt => hfail s (by omega))
    refine Ends.bind (ih howns (fun ist last'' s'' hlen hall howns' hsame' => Ends.pure ?_)
      fun s hlt => hfail s (by omega))
    refine hpost (b :: ist) last'' s'' (by rw [List.length_cons, hlen])
      (List.forall_mem_cons.2 ⟨hb, hall⟩) ((howns'.perm List.perm_middle).less (by omega)) ?_
    exact hsame.trans (hsame'.mono (List.subset_cons_self b os))

theorem Gdt.mark_keeps {gdt : Block} {bytes : List UInt8}
    (h : HeapOwns regions (gdt :: os) room last s) (hgdt : gdt.Stores s.heap.mem bytes)
    (hlen : bytes.length = 40) (hi : selector.toNat / 8 * 8 + 5 < 40)
    (hbyte : listMem bytes (selector.toNat / 8 * 8 + 5) = UInt8.ofNat v) (hv : v < 256) :
    HeapOwns regions (gdt :: os) room last
        { s with heap := { s.heap with mem := mark s.heap.mem gdt.ptr selector bit } } ∧
      SameBlocks os s
        { s with heap := { s.heap with mem := mark s.heap.mem gdt.ptr selector bit } } ∧
      gdt.Stores (mark s.heap.mem gdt.ptr selector bit)
        (bytes.set (selector.toNat / 8 * 8 + 5) (UInt8.ofNat (v ||| bit))) := by
  have hfits := hgdt.fits
  have hread : readLe s.heap.mem (gdt.ptr + (selector.toNat / 8 * 8 + 5)) 1 = v := by
    rw [hgdt.read _ 1 (by omega), readLe, readLe, hbyte, UInt8.toNat_ofNat', Nat.mod_eq_of_lt hv]
    rfl
  rw [mark, hread]
  rw [← hlen] at hi
  generalize selector.toNat / 8 * 8 + 5 = i at hi
  obtain ⟨h', hsame⟩ := h.write [] (m := writeLe s.heap.mem (gdt.ptr + i) 1 (v ||| bit))
    fun a ha => if_neg (by omega)
  exact ⟨h', hsame, hgdt.set hi _⟩

theorem Gdt.load_keeps {gdt : Block} (h : HeapOwns regions (gdt :: os) room last s)
    (hgdt : gdt.Stores s.heap.mem (default tss)) :
    HeapOwns regions (gdt :: os) room last
        { s with heap := { s.heap with mem := load s.heap.mem gdt.ptr } } ∧
      SameBlocks os s { s with heap := { s.heap with mem := load s.heap.mem gdt.ptr } } ∧
      gdt.Stores (load s.heap.mem gdt.ptr) (loaded tss) := by
  have hlen : (default tss).length = 40 := length_bytes _ _ _ _
  have htask : tss64Sel.toNat / 8 * 8 + 5 < 40 := by decide
  have hcode : kernelCs.toNat / 8 * 8 + 5 < 40 := by decide
  have hdata : kernelDs.toNat / 8 * 8 + 5 < 40 := by decide
  obtain ⟨h₁, hsame₁, hgdt₁⟩ := mark_keeps (v := 0b10001001) h hgdt hlen htask rfl (by decide)
  obtain ⟨h₂, hsame₂, hgdt₂⟩ := mark_keeps (v := 0b10011010) h₁ hgdt₁ (List.length_set.trans hlen)
    hcode rfl (by decide)
  obtain ⟨h₃, hsame₃, hgdt₃⟩ := mark_keeps (v := 0b10010010) h₂ hgdt₂
    (List.length_set.trans (List.length_set.trans hlen)) hdata rfl (by decide)
  exact ⟨h₃, (hsame₁.trans hsame₂).trans hsame₃, hgdt₃⟩

def initExceptionsRoom : Nat :=
  layoutStack.needed + 7 * layoutStack.needed + layoutTss.needed + layoutGdt.needed +
    layoutIdt.needed

/-- Setting up the tables fails only for want of memory. -/
theorem initExceptions_ends (addr : HandlerFn → BitVec 64) {post : CpuTables → HeapRun → Prop}
    (h : HeapOwns regions os room last s)
    (hpost : ∀ t last' s', t.Installed addr s'.heap.mem →
      HeapOwns regions (t.blocks ++ os) (room - initExceptionsRoom) last' s' → SameBlocks os s s' →
      post t s')
    (hfail : ∀ s, room < initExceptionsRoom → fails .outOfMemory s) :
    Ends (initExceptions addr) s post fails := by
  unfold initExceptionsRoom at hpost hfail
  refine Ends.bind (allocInterruptStack_ends h (fun rsp0 last₁ s₁ hrsp0 h₁ hsame₁ => ?_)
    fun s hlt => hfail s (by omega))
  refine Ends.bind (allocStacks_ends 7 h₁ (fun ist last₂ s₂ hcount hist h₂ hsame₂ => ?_)
    fun s hlt => hfail s (by omega))
  have hlen : (0 :: ist.map TaskStateSegment64.top).length = 8 := by
    rw [List.length_cons, List.length_map, hcount]
  refine Ends.bind (boxPin_ends h₂ (by decide)
    (TaskStateSegment64Inner.length_bytes _ hlen).le (fun tss last₃ s₃ _ h₃ hsame₃ htss => ?_)
    fun s hlt => hfail s (by omega))
  refine Ends.bind (boxPin_ends h₃ (by decide) (Gdt.length_bytes _ _ _ _).le
    (fun gdt last₄ s₄ _ h₄ hsame₄ hgdt => Ends.bind (Ends.modify ?_))
    fun s hlt => hfail s (by omega))
  obtain ⟨h₄, hsame₄', hgdt⟩ := Gdt.load_keeps h₄ hgdt
  replace hsame₄ := hsame₄.trans hsame₄'
  have hidtLen : ((Idt.new kernelCs).bytes addr).length = 4096 := by
    rw [Idt.bytes, length_records fun d _ => d.length_bytes addr, List.length_ofFn]
  refine Ends.bind (boxPin_ends h₄ (by decide) hidtLen.le
    (fun idt last₅ s₅ _ h₅ hsame₅ hidt => Ends.pure ?_) fun s hlt => hfail s (by omega))
  refine hpost { rsp0, ist, tss, gdt, idt } last₅ s₅ ?_ ((h₅.less (by omega)).perm ?_) ?_
  · refine ⟨hcount, List.forall_mem_cons.2 ⟨hrsp0, hist⟩, ?_, ?_, hidt⟩
    · exact (htss.congr (hsame₄ tss List.mem_cons_self)).congr
        (hsame₅ tss (List.mem_cons_of_mem _ List.mem_cons_self))
    · exact hgdt.congr (hsame₅ gdt List.mem_cons_self)
  · have hmiddle : (ist ++ rsp0 :: os).Perm (rsp0 :: ist ++ os) := List.perm_middle
    exact ((hmiddle.cons tss).cons gdt).cons idt
  · have hsub : os ⊆ ist ++ rsp0 :: os := fun b hb =>
      List.mem_append_right _ (List.mem_cons_of_mem _ hb)
    refine ((hsame₁.trans (hsame₂.mono (List.subset_cons_self rsp0 os))).trans
      (hsame₃.mono hsub)).trans ((hsame₄.mono fun b hb => ?_).trans (hsame₅.mono fun b hb => ?_))
    · exact List.mem_cons_of_mem _ (hsub hb)
    · exact List.mem_cons_of_mem _ (List.mem_cons_of_mem _ (hsub hb))

end

def wordAt (m : Mem) (a : BitVec 64) : BitVec 64 := BitVec.ofNat 64 (readLe m a.toNat 8)

namespace Cpu

/-- The words that the processor works on are those of the memory. -/
def Views (s : Cpu) (m : Mem) : Prop := ∀ a : BitVec 64, a.toNat % 8 = 0 → s.mem a = wordAt m a

def bytes (s : Cpu) (m : Mem) : Mem := fun a =>
  if a < 2 ^ 64 then UInt8.ofNat ((s.mem (BitVec.ofNat 64 (a / 8 * 8))).toNat / 256 ^ (a % 8))
  else m a

theorem bytes_same {s c : Cpu} (h : s.Views m)
    (hw : c.mem (BitVec.ofNat 64 (a / 8 * 8)) = s.mem (BitVec.ofNat 64 (a / 8 * 8))) :
    c.bytes m a = m a := by
  rw [bytes]
  split
  · next hlt =>
    have haddr : (BitVec.ofNat 64 (a / 8 * 8)).toNat = a / 8 * 8 := by
      rw [BitVec.toNat_ofNat, Nat.mod_eq_of_lt (by omega)]
    have hread : readLe m (a / 8 * 8) 8 % 2 ^ 64 = readLe m (a / 8 * 8) 8 :=
      Nat.mod_eq_of_lt (readLe_lt m (a / 8 * 8) 8)
    rw [hw, h _ (by omega), wordAt, haddr, BitVec.toNat_ofNat, hread,
      byte_readLe m _ 8 (Nat.mod_lt a (by decide))]
    exact congrArg m (by omega)
  · rfl

end Cpu

open TaskStateSegment64

/-- What the processor finds in memory: the gates of `Idt::new` with their handlers, the segments
that the selectors are for, and the ends of the stacks. -/
structure CpuTables.Seen (t : CpuTables) (addr : HandlerFn → BitVec 64) (m : Mem) : Prop where
  gates : ∀ vector : Fin 256,
    Gate.load m t.idt.ptr vector = ((Idt.new kernelCs).entries vector).gate addr
  code : IsKernelCode (segment m t.gdt.ptr kernelCs)
  data : IsKernelData (segment m t.gdt.ptr kernelDs)
  task : TaskState m t.gdt.ptr t.tss.ptr
  rsp0 : readLe m (t.tss.ptr + 4) 8 = top t.rsp0
  ist : ∀ (i : Nat) (hi : i < t.ist.length),
    readLe m (t.tss.ptr + (28 + (i + 1) * 8)) 8 = top t.ist[i]

section
variable {t : CpuTables} {addr : HandlerFn → BitVec 64}

theorem CpuTables.Installed.congr (h : t.Installed addr m)
    (hm : ∀ b ∈ [t.idt, t.gdt, t.tss], SameOn m m' b.ptr b.layout.size) : t.Installed addr m' :=
  ⟨h.count, h.layout, h.tss.congr (hm _ (by simp)), h.gdt.congr (hm _ (by simp)),
    h.idt.congr (hm _ (by simp))⟩

theorem CpuTables.Installed.seen (h : t.Installed addr m)
    (hlt : ∀ b ∈ t.blocks, b.ptr + b.layout.size < 2 ^ 64) : t.Seen addr m := by
  have htop : ∀ b ∈ t.rsp0 :: t.ist, top b < 2 ^ 64 := by
    intro b hb
    have hend := hlt b (List.mem_cons_of_mem _ (List.mem_cons_of_mem _ (List.mem_cons_of_mem _ hb)))
    have hsize : b.layout.size = handlerStackSize := by
      rw [h.layout b hb]
      rfl
    rwa [hsize] at hend
  have htss := hlt t.tss (by simp [blocks])
  have hgdt : ∀ a n, a + n ≤ 40 →
      readLe m (t.gdt.ptr + a) n = readLe (listMem (Gdt.loaded t.tss.ptr)) a n :=
    fun a n han => h.gdt.read a n (by rwa [Gdt.loaded, Gdt.length_bytes])
  constructor
  case gates =>
    refine Gate.load_idt addr _ fun a n han => h.idt.read a n ?_
    rwa [Idt.bytes, length_records fun d _ => d.length_bytes addr, List.length_ofFn]
  case code => exact Gdt.kernelCode_read hgdt
  case data => exact Gdt.kernelData_read hgdt
  case task => exact Gdt.taskState_read (by omega) hgdt
  case rsp0 =>
    have hlen : (0 :: t.ist.map top).length = 8 := by
      rw [List.length_cons, List.length_map, h.count]
    rw [h.tss.read 4 8 (by rw [TaskStateSegment64Inner.length_bytes _ hlen]; decide)]
    exact TaskStateSegment64Inner.rsp0_read _ (htop _ List.mem_cons_self)
  case ist =>
    intro i hi
    have hlen : (0 :: t.ist.map top).length = 8 := by
      rw [List.length_cons, List.length_map, h.count]
    have hcount := h.count
    have hidx : i + 1 < (0 :: t.ist.map top).length := by omega
    have hval : (0 :: t.ist.map top)[i + 1] = top t.ist[i] := by
      rw [List.getElem_cons_succ, List.getElem_map]
    rw [h.tss.read _ 8 (by rw [TaskStateSegment64Inner.length_bytes _ hlen]; omega)]
    rw [← hval]
    refine TaskStateSegment64Inner.ist_read _ hidx ?_
    rw [hval]
    exact htop _ (List.mem_cons_of_mem _ (List.getElem_mem hi))

end

/-- What happens to the memory once the tables are loaded: the users of the heap go on, a processor
enters a handler, and handlers use the stacks that they run on. -/
inductive ExceptionStep (t : CpuTables) : HeapRun → HeapRun → Prop where
  | heap : HeapStep s s' → ExceptionStep t s s'
  | enter (env : Environment) (cpu : Cpu) : cpu.Views s.heap.mem →
      ((Idt.new kernelCs).entries vector).f.stub = some stub →
      Interrupts.enter env (.new kernelCs) (interruptStack s.heap.mem t.gdt.ptr) vector errorCode
        stub cpu = .ok c →
      ExceptionStep t s ⟨{ s.heap with mem := c.bytes s.heap.mem }, s.live⟩
  | handler (stack : Block) : stack ∈ t.rsp0 :: t.ist →
      (∀ a, (a < stack.ptr ∨ stack.ptr + stack.layout.size ≤ a) → m a = s.heap.mem a) →
      ExceptionStep t s ⟨{ s.heap with mem := m }, s.live⟩

/-- Delivering an exception, with the processor in any state, up to the call of the handler. -/
structure Delivers (t : CpuTables) (s : HeapRun) : Prop where
  enters : ∀ (env : Environment) (cpu : Cpu) (vector : Fin 256) stub errorCode,
    ((Idt.new kernelCs).entries vector).f.stub = some stub → vector ≠ 8 →
    ∃ c, Interrupts.enter env (.new kernelCs) (interruptStack s.heap.mem t.gdt.ptr) vector
      errorCode stub cpu = .ok c
  keeps : ∀ (env : Environment) (cpu : Cpu) (vector : Fin 256) stub errorCode c,
    cpu.Views s.heap.mem → ((Idt.new kernelCs).entries vector).f.stub = some stub →
    Interrupts.enter env (.new kernelCs) (interruptStack s.heap.mem t.gdt.ptr) vector errorCode
      stub cpu = .ok c →
    ∀ b ∈ s.live ++ [t.idt, t.gdt, t.tss],
      SameOn s.heap.mem (c.bytes s.heap.mem) b.ptr b.layout.size

structure ExceptionsSound (map : List EfiMemoryDescriptor) (addr : HandlerFn → BitVec 64)
    (t : CpuTables) (s : HeapRun) : Prop where
  tables : t.Seen addr s.heap.mem
  heap : ∃ cs, HeapSafe map ⟨s.heap, s.live ++ t.blocks⟩ cs
  delivers : Delivers t s

section
variable {t : CpuTables} {addr : HandlerFn → BitVec 64} {regions : List (Nat × Nat)}
  {s s' : HeapRun}

theorem HeapInv.ptr_mod (h : HeapInv regions heap live cs) (hb : b ∈ live) : b.ptr % 32 = 0 := by
  obtain ⟨c, hc, hheld⟩ := h.held b hb
  have hmod := (h.shaped c hc).addr_mod
  rw [hheld.ptr_eq, headerSize]
  omega

structure CpuTables.Live (t : CpuTables) (addr : HandlerFn → BitVec 64)
    (regions : List (Nat × Nat)) (s : HeapRun) : Prop where
  inv : ∃ cs, HeapInv regions s.heap (s.live ++ t.blocks) cs
  installed : t.Installed addr s.heap.mem

namespace CpuTables.Live

theorem ptr_lt (h : t.Live addr regions s) (hb : b ∈ s.live ++ t.blocks) :
    b.ptr + b.layout.size < 2 ^ 64 := by
  obtain ⟨cs, hinv⟩ := h.inv
  obtain ⟨r, hr, _, hhi⟩ := hinv.bounds hb
  exact lt_of_le_of_lt hhi (hinv.good.below r hr)

theorem seen (h : t.Live addr regions s) : t.Seen addr s.heap.mem :=
  h.installed.seen fun _ hb => h.ptr_lt (List.mem_append_right _ hb)

theorem stack (h : t.Live addr regions s) (vector : Fin 256) : ∃ b ∈ t.ist,
    interruptStack s.heap.mem t.gdt.ptr ((Idt.new kernelCs).entries vector).istIndex =
      BitVec.ofNat 64 (top b) ∧
    b.layout.size = handlerStackSize ∧ b.ptr % 32 = 0 ∧ b.ptr + handlerStackSize < 2 ^ 64 := by
  have hcount := h.installed.count
  obtain ⟨i, hi, hindex⟩ : ∃ i, i < t.ist.length ∧
      ((Idt.new kernelCs).entries vector).istIndex.toNat = i + 1 := by
    rcases Interrupts.istIndex_cases kernelCs vector with he | he
    · exact ⟨0, by omega, by rw [he]; rfl⟩
    · exact ⟨1, by omega, by rw [he]; rfl⟩
  have hmem : t.ist[i] ∈ s.live ++ t.blocks := List.mem_append_right _
    (List.mem_cons_of_mem _ (List.mem_cons_of_mem _ (List.mem_cons_of_mem _
      (List.mem_cons_of_mem _ (List.getElem_mem hi)))))
  have hsize : t.ist[i].layout.size = handlerStackSize := by
    rw [h.installed.layout _ (List.mem_cons_of_mem _ (List.getElem_mem hi))]
    rfl
  have hlt := h.ptr_lt hmem
  obtain ⟨cs, hinv⟩ := h.inv
  refine ⟨t.ist[i], List.getElem_mem hi, ?_, hsize, hinv.ptr_mod hmem, hsize ▸ hlt⟩
  rw [interruptStack, h.seen.task.base_eq, hindex, h.seen.ist i hi]

theorem enter_inside (h : t.Live addr regions s) (hviews : cpu.Views s.heap.mem)
    {vector : Fin 256} (hstub : ((Idt.new kernelCs).entries vector).f.stub = some stub)
    (hok : Interrupts.enter env (.new kernelCs) (interruptStack s.heap.mem t.gdt.ptr) vector
      errorCode stub cpu = .ok c) :
    ∃ b ∈ t.ist, ∀ a, (a < b.ptr ∨ b.ptr + b.layout.size ≤ a) →
      c.bytes s.heap.mem a = s.heap.mem a := by
  obtain ⟨b, hb, hstack, hsize, hmod, hlt⟩ := h.stack vector
  have htop : (BitVec.ofNat 64 (top b)).toNat = b.ptr + handlerStackSize := by
    rw [top, BitVec.toNat_ofNat, Nat.mod_eq_of_lt hlt]
  have hstackSize : handlerStackSize = 65536 := rfl
  refine ⟨b, hb, fun a ha => ?_⟩
  by_cases hspace : a < 2 ^ 64
  · refine Cpu.bytes_same hviews
      (Interrupts.enter_frame hstub hok hstack (by omega) (by omega) _ ?_)
    rw [BitVec.toNat_ofNat, Nat.mod_eq_of_lt (by omega)]
    omega
  · rw [Cpu.bytes, if_neg hspace]

theorem ist_sub (hb : b ∈ t.ist) : b ∈ t.rsp0 :: t.ist := List.mem_cons_of_mem _ hb

theorem stack_write (h : t.Live addr regions s) (hb : b ∈ t.rsp0 :: t.ist)
    (hm : ∀ a, (a < b.ptr ∨ b.ptr + b.layout.size ≤ a) → m a = s.heap.mem a) :
    t.Live addr regions ⟨{ s.heap with mem := m }, s.live⟩ ∧
      ∀ x ∈ s.live ++ [t.idt, t.gdt, t.tss], SameOn s.heap.mem m x.ptr x.layout.size := by
  obtain ⟨cs, hinv⟩ := h.inv
  have hblocks : t.blocks = [t.idt, t.gdt, t.tss] ++ (t.rsp0 :: t.ist) := rfl
  have hmem : b ∈ s.live ++ t.blocks := by
    rw [hblocks]
    exact List.mem_append_right _ (List.mem_append_right _ hb)
  have hapart := hinv.blocks_apart
  rw [hblocks, ← List.append_assoc] at hapart
  have hsame : ∀ x ∈ s.live ++ [t.idt, t.gdt, t.tss], SameOn s.heap.mem m x.ptr x.layout.size := by
    intro x hx a hlo hhi
    have hxb := (List.pairwise_append.1 hapart).2.2 x hx b hb
    unfold Apart at hxb
    exact hm a (by omega)
  exact ⟨⟨⟨cs, hinv.write hmem hm⟩,
    h.installed.congr fun x hx => hsame x (List.mem_append_right _ hx)⟩, hsame⟩

theorem step (h : t.Live addr regions s) (hs : ExceptionStep t s s') : t.Live addr regions s' := by
  cases hs with
  | heap hs =>
    obtain ⟨cs, hinv⟩ := h.inv
    obtain ⟨hinv', hsame⟩ := hinv.step hs
    refine ⟨hinv', h.installed.congr fun b hb => hsame b ?_⟩
    exact List.mem_append_left (t.rsp0 :: t.ist) hb
  | enter env cpu hviews hstub hok =>
    obtain ⟨b, hb, hinside⟩ := h.enter_inside hviews hstub hok
    exact (h.stack_write (ist_sub hb) hinside).1
  | handler stack hstack hm => exact (h.stack_write hstack hm).1

theorem sound (h : t.Live addr (freeRegions map) s) : ExceptionsSound map addr t s := by
  constructor
  case tables => exact h.seen
  case heap =>
    obtain ⟨cs, hinv⟩ := h.inv
    exact ⟨cs, HeapInv.safe (s := ⟨s.heap, s.live ++ t.blocks⟩) hinv⟩
  case delivers =>
    constructor
    case enters =>
      intro env cpu vector stub errorCode hstub hne
      obtain ⟨c, _, _, hok, _⟩ := Interrupts.enter_ok env hstub hne
        (interruptStack s.heap.mem t.gdt.ptr) errorCode cpu
      exact ⟨c, hok⟩
    case keeps =>
      intro env cpu vector stub errorCode c hviews hstub hok
      obtain ⟨b, hb, hinside⟩ := h.enter_inside hviews hstub hok
      exact (h.stack_write (ist_sub hb) hinside).2

end CpuTables.Live

end

/-- From `init_exceptions` on, whatever the users of the heap do and whichever exceptions come, the
processor finds the tables as they were built and the handlers keep to their own stacks. -/
theorem exceptions_isolated (map : List EfiMemoryDescriptor)
    (hv : EfiMemoryDescriptor.ValidMap map) (m : Mem) (addr : HandlerFn → BitVec 64) :
    ∃ heap, Heap.initWithMmap ⟨m, none⟩ map = .ok heap ∧
      ∀ r, Runs HeapStep ⟨heap, []⟩ r →
        Ends (initExceptions addr) r
          (fun t s => ∀ s', Runs (ExceptionStep t) ⟨s.heap, r.live⟩ s' →
            ExceptionsSound map addr t s')
          fun e _ => e = .outOfMemory ∧ ¬r.heap.Roomy initExceptionsRoom := by
  obtain ⟨heap, hinit, hruns⟩ := heapInv_of_runs hv m
  refine ⟨heap, hinit, fun r hr => ?_⟩
  obtain ⟨cs, hinv⟩ := hruns r hr
  obtain ⟨room, last, howns, hroom⟩ := hinv.owns (fun _ hb => hb) initExceptionsRoom
  refine initExceptions_ends addr howns (fun t _ s hinstalled howns' _ s' hs' => ?_)
    fun _ hlt => ⟨rfl, fun hroomy => by have := hroom hroomy; omega⟩
  obtain ⟨cs', hinv', _⟩ := howns'.inv
  have hlive : t.Live addr (freeRegions map) ⟨s.heap, r.live⟩ :=
    ⟨⟨cs', hinv'.perm List.perm_append_comm⟩, hinstalled⟩
  exact (hs'.invariant (t.Live addr (freeRegions map)) (fun _ _ h hs => h.step hs) hlive).sound

def twoMebibytes : List EfiMemoryDescriptor := [⟨.conventionalMemory, 0x10_0000, 512⟩]

theorem exceptions_isolated_twoMebibytes :
    ∃ heap t s, Heap.initWithMmap ⟨fun _ => 0, none⟩ twoMebibytes = .ok heap ∧
      initExceptions (fun _ => 0x1000) ⟨heap, []⟩ = .ok t s ∧
      ∀ s', Runs (ExceptionStep t) ⟨s.heap, []⟩ s' →
        ExceptionsSound twoMebibytes (fun _ => 0x1000) t s' := by
  obtain ⟨heap, hinit, h⟩ := exceptions_isolated twoMebibytes
    ⟨by decide, by decide, by simp [twoMebibytes]⟩ (fun _ => 0) fun _ => 0x1000
  have hheap : Heap.initWithMmap ⟨fun _ => 0, none⟩ twoMebibytes =
      .ok ⟨Header.store (fun _ => 0) 0x10_0000 ⟨none, 2 ^ 21, false⟩, some 0x10_0000⟩ := rfl
  have hinv := HeapInv.single (fun _ => 0) 0x10_0000 (2 ^ 21) (by decide) (by decide) (by decide)
    (by decide) (by decide)
  rw [← Except.ok.inj (hinit.symm.trans hheap)] at hinv
  have hroomy : heap.Roomy initExceptionsRoom := ⟨_, [], hinv.list, rfl, by decide⟩
  obtain ⟨t, s, hok, hsound⟩ := (h ⟨heap, []⟩ .refl).returns fun _ _ hfail => hfail.2 hroomy
  exact ⟨heap, t, s, hinit, hok, hsound⟩

end Wasabi
