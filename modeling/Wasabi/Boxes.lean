import Wasabi.Outcome
import Wasabi.Placement

namespace Wasabi
set_option autoImplicit true

open Header

def copyBytes (m : Mem) (dst src n : Nat) : Mem := fun a =>
  if dst ≤ a ∧ a < dst + n then m (src + (a - dst)) else m a

abbrev BoxM := EStateM Fault HeapRun

namespace Allocator

/-- A null pointer ends the run: `Box` and `Vec` abort on one, and `slice::from_raw_parts` must not
be given one. -/
def allocWithOptions (layout : Layout) : BoxM Block := do
  let s ← get
  let (ptr, heap) ← MonadExcept.ofExcept (s.heap.allocWithOptions layout)
  if ptr = 0 then
    throw .outOfMemory
  set { s with heap := heap, live := ⟨ptr, layout⟩ :: s.live }
  return ⟨ptr, layout⟩

def dealloc (b : Block) : BoxM Unit := do
  let s ← get
  let heap ← MonadExcept.ofExcept (s.heap.dealloc b.ptr)
  set { s with heap := heap, live := s.live.filter (·.ptr ≠ b.ptr) }

end Allocator

def modifyMem (f : Mem → Mem) : BoxM Unit :=
  modify fun s => { s with heap := { s.heap with mem := f s.heap.mem } }

/-- The layout of an array; one that does not exist is a capacity overflow. -/
def arrayLayout (size align : Nat) : BoxM Layout :=
  match Layout.fromSizeAlign size align with
  | some layout => return layout
  | none => throw .outOfMemory

/-- `Box::<[T]>::from` of the slice of `size` bytes at `src`: a new allocation with the alignment
of `T`, and a copy of the elements. -/
def boxFrom (src size align : Nat) : BoxM Block := do
  let layout ← arrayLayout size align
  let b ← Allocator.allocWithOptions layout
  modifyMem fun m => copyBytes m b.ptr src size
  return b

/-- A `Vec` of boxed slices, with the allocation of its buffer. An element takes 16 bytes. -/
structure BoxVec where
  buf : Option Block
  items : List Block

namespace BoxVec

def new : BoxVec := ⟨none, []⟩

def capacity (this : BoxVec) : Nat :=
  match this.buf with
  | none => 0
  | some buf => buf.layout.size / 16

/-- `Vec` grows to twice its capacity, and at first to four elements. The default
`GlobalAlloc::realloc` allocates, copies and frees. -/
def grow (this : BoxVec) : BoxM Block := do
  let capacity := max (max (this.capacity * 2) (this.items.length + 1)) 4
  let layout ← arrayLayout (16 * capacity) 8
  let buf ← Allocator.allocWithOptions layout
  match this.buf with
  | none => return buf
  | some old => do
    modifyMem fun m => copyBytes m buf.ptr old.ptr old.layout.size
    Allocator.dealloc old
    return buf

def reserve (this : BoxVec) : BoxM Block :=
  match this.buf with
  | none => this.grow
  | some buf => if this.items.length < this.capacity then return buf else this.grow

def push (this : BoxVec) (b : Block) : BoxM BoxVec := do
  let buf ← this.reserve
  let slot := buf.ptr + 16 * this.items.length
  modifyMem fun m => writeLe (writeLe m slot 8 b.ptr) (slot + 8) 8 b.layout.size
  return ⟨some buf, this.items ++ [b]⟩

end BoxVec

/-- The first header is free, has `room` bytes and ends at `last`. Without room nothing is said. -/
def HeadRoom (room last : Nat) (cs : List (Nat × Header)) : Prop :=
  0 < room → ∃ c cs', cs = c :: cs' ∧ c.2.isAllocated = false ∧ room ≤ c.2.size ∧
    c.1 + c.2.size = last

theorem HeadRoom.serve (h : HeadRoom room last cs) :
    HeadRoom (room - l.needed) (serveAddr l cs - headerSize) (serve l cs) := by
  intro hpos
  obtain ⟨c, cs', rfl, hfree, hsize, _⟩ := h (by omega)
  have ha : c.2.Able l := ⟨hfree, (Nat.lt_of_sub_pos hpos).le.trans hsize⟩
  have hbounds := carveAddr_bounds l c.1 ha
  have hlt := lt_carveAddr l c.1 c.2
  have hfirst : firstFit l (c :: cs') = some c := firstFit_append (List.forall_mem_nil _) ha
  have hserve : Wasabi.serve l (c :: cs') = carved l c.1 c.2 ++ cs' := if_pos ha
  rw [hserve, serveAddr, hfirst]
  refine ⟨_, _, rfl, hfree, ?_, ?_⟩
  · unfold Layout.needed headerSize at *
    dsimp only
    omega
  · unfold headerSize
    dsimp only
    omega

theorem HeadRoom.release (h : HeadRoom room last cs) : HeadRoom room last (release ptr cs) := by
  intro hpos
  obtain ⟨c, cs', rfl, hfree, hsize, hlast⟩ := h hpos
  by_cases hc : c.1 + headerSize = ptr
  · exact ⟨_, _, congrArg (· :: _) (if_pos hc), rfl, hsize, hlast⟩
  · exact ⟨_, _, congrArg (· :: _) (if_neg hc), hfree, hsize, hlast⟩

theorem HeadRoom.first (h : HeadRoom room last cs) (hl : l.needed ≤ room) :
    ∃ c ∈ cs, c.2.Able l ∧ firstFit l cs = some c ∧ c.1 + c.2.size = last := by
  have hneeded : 0 < l.needed := by
    unfold Layout.needed
    omega
  obtain ⟨c, cs', rfl, hfree, hsize, hlast⟩ := h (by omega)
  have ha : c.2.Able l := ⟨hfree, hl.trans hsize⟩
  exact ⟨c, List.mem_cons_self, ha, firstFit_append (List.forall_mem_nil _) ha, hlast⟩

/-- The blocks `os` are live, and the heap is in order with them. -/
structure HeapOwns (regions : List (Nat × Nat)) (os : List Block) (room last : Nat)
    (s : HeapRun) : Prop where
  inv : ∃ cs, HeapInv regions s.heap os cs ∧ HeadRoom room last cs
  live : ∀ b ∈ os, b ∈ s.live

def Heap.Roomy (room : Nat) (heap : Heap) : Prop :=
  ∃ c cs, HeaderList heap (c :: cs) ∧ c.2.isAllocated = false ∧ room ≤ c.2.size

theorem HeapInv.owns {s : HeapRun} (h : HeapInv regions s.heap os cs) (hlive : ∀ b ∈ os, b ∈ s.live)
    (n : Nat) : ∃ room last, HeapOwns regions os room last s ∧ (s.heap.Roomy n → n ≤ room) := by
  by_cases hroomy : s.heap.Roomy n
  · obtain ⟨c, cs', hlist, hfree, hsize⟩ := hroomy
    obtain rfl := h.list.unique hlist
    exact ⟨n, c.1 + c.2.size, ⟨⟨_, h, fun _ => ⟨c, cs', rfl, hfree, hsize, rfl⟩⟩, hlive⟩,
      fun _ => Nat.le_refl n⟩
  · exact ⟨0, 0, ⟨⟨cs, h, fun hpos => absurd hpos (Nat.lt_irrefl 0)⟩, hlive⟩,
      fun hr => absurd hr hroomy⟩

def SameBlocks (os : List Block) (s s' : HeapRun) : Prop :=
  ∀ b ∈ os, SameOn s.heap.mem s'.heap.mem b.ptr b.layout.size

def Relisted (f : List (Nat × Header) → List (Nat × Header)) (s s' : HeapRun) : Prop :=
  ∀ cs, HeaderList s.heap cs → HeaderList s'.heap (f cs)

theorem HeapInv.relisted {s s' : HeapRun} (h : HeapInv regions s.heap live cs)
    (h' : HeapInv regions s'.heap live' (f cs)) : Relisted f s s' := by
  intro ds hds
  obtain rfl := h.list.unique hds
  exact h'.list

namespace SameBlocks

theorem refl (os : List Block) (s : HeapRun) : SameBlocks os s s := fun _ _ => .refl _ _ _

theorem trans (h : SameBlocks os s s') (h' : SameBlocks os s' s'') : SameBlocks os s s'' :=
  fun b hb => (h b hb).trans (h' b hb)

theorem mono (h : SameBlocks os s s') (hsub : os' ⊆ os) : SameBlocks os' s s' :=
  fun b hb => h b (hsub hb)

end SameBlocks

namespace HeapOwns

theorem perm (h : HeapOwns regions os room last s) (hp : os.Perm os') :
    HeapOwns regions os' room last s := by
  obtain ⟨cs, hinv, hroom⟩ := h.inv
  exact ⟨⟨cs, hinv.perm hp, hroom⟩, fun b hb => h.live b (hp.mem_iff.2 hb)⟩

theorem sublist (h : HeapOwns regions os room last s) (hs : List.Sublist os' os) :
    HeapOwns regions os' room last s := by
  obtain ⟨cs, hinv, hroom⟩ := h.inv
  exact ⟨⟨cs, hinv.sublist hs, hroom⟩, fun b hb => h.live b (hs.subset hb)⟩

theorem less (h : HeapOwns regions os room last s) (hle : room' ≤ room) :
    HeapOwns regions os room' last s := by
  obtain ⟨cs, hinv, hroom⟩ := h.inv
  refine ⟨⟨cs, hinv, fun hpos => ?_⟩, h.live⟩
  obtain ⟨c, cs', he, hfree, hsize, hlast⟩ := hroom (by omega)
  exact ⟨c, cs', he, hfree, hle.trans hsize, hlast⟩

theorem ptr_bounds (h : HeapOwns regions os room last s) (hb : b ∈ os) :
    0 < b.ptr ∧ b.ptr < 2 ^ 64 := by
  obtain ⟨cs, hinv, _⟩ := h.inv
  obtain ⟨r, hr, hlo, hhi⟩ := hinv.bounds hb
  have habove := hinv.good.above r hr
  have hbelow := hinv.good.below r hr
  omega

theorem aligned (h : HeapOwns regions os room last s) (hb : b ∈ os) : b.layout.align ∣ b.ptr := by
  obtain ⟨cs, hinv, _⟩ := h.inv
  exact hinv.aligned hb

theorem write (pre : List Block) (h : HeapOwns regions (pre ++ b :: post) room last s)
    (hm : ∀ a, (a < b.ptr ∨ b.ptr + b.layout.size ≤ a) → m a = s.heap.mem a) :
    HeapOwns regions (pre ++ b :: post) room last { s with heap := { s.heap with mem := m } } ∧
      SameBlocks (pre ++ post) s { s with heap := { s.heap with mem := m } } := by
  obtain ⟨cs, hinv, hroom⟩ := h.inv
  have hb : b ∈ pre ++ b :: post := by simp
  refine ⟨⟨⟨cs, hinv.write hb hm, hroom⟩, h.live⟩, fun c hc a hl hu => hm a ?_⟩
  obtain ⟨_, hpost, hpre⟩ := List.pairwise_append.1 hinv.blocks_apart
  have hapart : Apart b.ptr b.layout.size c.ptr c.layout.size := by
    rcases List.mem_append.1 hc with hc | hc
    · exact (hpre c hc b List.mem_cons_self).symm
    · exact (List.pairwise_cons.1 hpost).1 c hc
  unfold Apart at hapart
  omega

theorem write_headers (h : HeapOwns regions os room last s) (hb : b ∈ os)
    (hm : ∀ a, (a < b.ptr ∨ b.ptr + b.layout.size ≤ a) → m a = s.heap.mem a)
    (hcs : HeaderList s.heap cs) : HeaderList { s.heap with mem := m } cs := by
  obtain ⟨ds, hinv, _⟩ := h.inv
  obtain rfl := hcs.unique hinv.list
  exact (hinv.write hb hm).list

end HeapOwns

structure Allocated (regions : List (Nat × Nat)) (os : List Block) (room last : Nat)
    (s : HeapRun) (b : Block) (s' : HeapRun) : Prop where
  owns : HeapOwns regions (b :: os) (room - b.layout.needed) (b.ptr - headerSize) s'
  same : SameBlocks os s s'
  headers : Relisted (serve b.layout) s s'
  placed : ∀ cs, HeaderList s.heap cs → ∃ c, firstFit b.layout cs = some c ∧ Shaped c ∧
    b.ptr = carveAddr b.layout c.1 c.2 ∧ (b.layout.needed ≤ room → c.1 + c.2.size = last)

theorem Allocated.serveAddr (h : Allocated regions os room last s b s')
    (hcs : HeaderList s.heap cs) : serveAddr b.layout cs = b.ptr := by
  obtain ⟨c, hfirst, _, hptr, _⟩ := h.placed cs hcs
  rw [Wasabi.serveAddr, hfirst, hptr]

section
variable {regions : List (Nat × Nat)} {os : List Block} {room last : Nat} {s : HeapRun}
  {fails : Fault → HeapRun → Prop} {size align src : Nat}

theorem Allocator.allocWithOptions_ends {post : Block → HeapRun → Prop}
    (h : HeapOwns regions os room last s) (hl : 0 < l.size)
    (hpost : ∀ b s', b.layout = l → Allocated regions os room last s b s' → post b s')
    (hfail : room < l.needed → fails .outOfMemory s) :
    Ends (allocWithOptions l) s post fails := by
  obtain ⟨cs, hinv, hroom⟩ := h.inv
  refine Ends.bind (Ends.get ?_)
  rcases hinv.alloc_served hl with
    ⟨hnull, hnone⟩ | ⟨c, heap, hfirst, ha, hs, hne, hok, hinv', hsame⟩
  · refine Ends.bind (Ends.ofExcept hnull (Ends.bind (Ends.throw (hfail ?_))))
    by_contra hlt
    obtain ⟨c, hc, ha, _⟩ := hroom.first (Nat.le_of_not_lt hlt)
    exact hnone c hc ha
  · refine Ends.bind (Ends.ofExcept hok ?_)
    dsimp only
    rw [if_neg hne]
    have haddr : Wasabi.serveAddr l cs = carveAddr l c.1 c.2 := by
      rw [Wasabi.serveAddr, hfirst]
    refine hpost _ _ rfl ⟨⟨⟨_, hinv', haddr ▸ hroom.serve⟩, fun b hb => ?_⟩, hsame,
      hinv.relisted hinv', fun ds hds => ?_⟩
    · rcases List.mem_cons.1 hb with rfl | hb
      · exact List.mem_cons_self
      · exact List.mem_cons_of_mem _ (h.live b hb)
    · obtain rfl := hinv.list.unique hds
      refine ⟨c, hfirst, hs, rfl, fun hneeded => ?_⟩
      obtain ⟨d, _, _, hd, hlast⟩ := hroom.first hneeded
      obtain rfl := Option.some.inj (hfirst.symm.trans hd)
      exact hlast

theorem Allocator.dealloc_ends (pre : List Block) {post : Unit → HeapRun → Prop}
    (h : HeapOwns regions (pre ++ old :: os) room last s)
    (hpost : ∀ s', HeapOwns regions (pre ++ os) room last s' → SameBlocks (pre ++ os) s s' →
      Relisted (release old.ptr) s s' → post () s') :
    Ends (dealloc old) s post fails := by
  obtain ⟨cs, hinv, hroom⟩ := h.inv
  have hsub : List.Sublist (pre ++ os) (pre ++ old :: os) :=
    (List.sublist_cons_self old os).append_left pre
  have hne : ∀ b ∈ pre ++ os, b.ptr ≠ old.ptr := by
    obtain ⟨_, hos, hpre⟩ := List.pairwise_append.1 hinv.distinct
    intro b hb
    rcases List.mem_append.1 hb with hb | hb
    · exact hpre b hb old List.mem_cons_self
    · exact Ne.symm ((List.pairwise_cons.1 hos).1 b hb)
  obtain ⟨heap, hok, hinv', hsame⟩ := hinv.dealloc_released (b := old) (by simp)
  refine Ends.bind (Ends.get (Ends.bind (Ends.ofExcept hok ?_)))
  refine hpost _ ⟨⟨_, hinv'.sublist ?_, hroom.release⟩, fun b hb => ?_⟩
    (fun b hb => hsame b (hsub.subset hb)) (hinv.relisted hinv')
  · have hkeep := hsub.filter fun b => decide (b.ptr ≠ old.ptr)
    rwa [List.filter_eq_self.2 fun b hb => by simpa using hne b hb] at hkeep
  · exact List.mem_filter.2 ⟨h.live b (hsub.subset hb), by simpa using hne b hb⟩

theorem arrayLayout_ends {post : Layout → HeapRun → Prop} (halign : align = 2 ^ k)
    (hsize : size + align ≤ 2 ^ 63)
    (hpost : ∀ l, Layout.fromSizeAlign size align = some l → l.size = size → l.align = align →
      post l s) :
    Ends (arrayLayout size align) s post fails := by
  subst halign
  obtain ⟨l, hl, hs, ha⟩ := Layout.fromSizeAlign_pow size k hsize
  rw [arrayLayout, hl]
  exact hpost l hl hs ha

structure Boxed (regions : List (Nat × Nat)) (os : List Block) (room last : Nat) (s : HeapRun)
    (b : Block) (s' : HeapRun) : Prop where
  owns : HeapOwns regions (b :: os) (room - (blockSize b.layout.size + 96)) (b.ptr - headerSize) s'
  same : SameBlocks os s s'
  headers : Relisted (serve b.layout) s s'
  aligned : ∀ a cs, HeaderList s.heap cs → (a ∣ b.ptr ↔ EndsAbove a b.layout cs)
  last : blockSize b.layout.size + 96 ≤ room → b.ptr = last - blockSize b.layout.size

theorem boxFrom_ends {post : Block → HeapRun → Prop} (h : HeapOwns regions os room last s)
    (halign : align = 2 ^ k) (hk : k ≤ 5) (hpos : 0 < size) (hsize : size ≤ 2 ^ 62)
    (hpost : ∀ b s', Layout.fromSizeAlign size align = some b.layout → b.layout.size = size →
      Boxed regions os room last s b s' → post b s')
    (hfail : ∀ s, room < blockSize size + 96 → fails .outOfMemory s) :
    Ends (boxFrom src size align) s post fails := by
  have hle : align ≤ headerSize := by
    rw [halign]
    exact Nat.pow_le_pow_right (n := 2) (j := 5) (by omega) hk
  unfold headerSize at hle
  refine Ends.bind (arrayLayout_ends halign (by omega) fun l hl hls hla => Ends.bind ?_)
  have hneeded : l.needed = blockSize size + 96 := by
    rw [Layout.needed, hls, hla, show blockAlign align = 32 from Nat.max_eq_right hle]
  refine Allocator.allocWithOptions_ends h (by omega) (fun b s' hbl hb => ?_)
    fun hlt => hfail _ (by omega)
  subst hbl
  have hend {c : Nat × Header} (hs : Shaped c) :
      carveAddr b.layout c.1 c.2 = c.1 + c.2.size - blockSize b.layout.size :=
    carveAddr_eq_end hs (by rw [hla]; exact hle)
  have hinside : ∀ a, (a < b.ptr ∨ b.ptr + b.layout.size ≤ a) →
      copyBytes s'.heap.mem b.ptr src size a = s'.heap.mem a := fun a ha => if_neg (by omega)
  obtain ⟨howns, hsame⟩ := hb.owns.write [] hinside
  refine Ends.bind (Ends.modify ?_)
  rw [← hls] at hneeded
  refine hpost b _ hl hls ⟨howns.less (by omega), hb.same.trans hsame, fun cs hcs => ?_,
    fun a cs hcs => ?_, fun hroom => ?_⟩
  · exact hb.owns.write_headers List.mem_cons_self hinside (hb.headers cs hcs)
  · obtain ⟨c, hfirst, hs, hptr, _⟩ := hb.placed cs hcs
    rw [EndsAbove, hfirst, hptr, hend hs]
    simp
  · obtain ⟨cs, hinv, _⟩ := h.inv
    obtain ⟨c, _, hs, hptr, hlast⟩ := hb.placed cs hinv.list
    rw [hptr, hend hs, hlast (by omega)]

theorem blockSize_le_pow (h : size ≤ 2 ^ k) (hk : 5 ≤ k) : blockSize size ≤ 2 ^ k := by
  apply Nat.max_le.2 ⟨?_, Nat.pow_le_pow_right (n := 2) (i := 5) (by omega) hk⟩
  exact Nat.pow_le_pow_right (by omega) ((Nat.clog_le_iff_le_pow (by omega)).2 h)

namespace BoxVec

/-- Room for the buffers of up to 2050 elements. -/
def growRoom : Nat := 2 ^ 16 + 96

/-- The buffer of `len` elements and the header list once the buffer has grown. -/
def grown (len : Nat) (buf : Option Block) (cs : List (Nat × Header)) :
    Option Block × List (Nat × Header) :=
  let capacity := max (max (capacity ⟨buf, []⟩ * 2) (len + 1)) 4
  match Layout.fromSizeAlign (16 * capacity) 8 with
  | none => (buf, cs)
  | some l => (some ⟨serveAddr l cs, l⟩, match buf with
    | none => serve l cs
    | some old => release old.ptr (serve l cs))

def reserved (len : Nat) (buf : Option Block) (cs : List (Nat × Header)) :
    Option Block × List (Nat × Header) :=
  if len < capacity ⟨buf, []⟩ then (buf, cs) else grown len buf cs

variable {this : BoxVec} {b : Block}

theorem grow_ends {post : Block → HeapRun → Prop}
    (h : HeapOwns regions (this.buf.toList ++ os) room last s)
    (hcap : this.capacity ≤ this.items.length) (hlen : this.items.length < 1024)
    (hpost : ∀ buf last' s', 16 * this.items.length + 16 ≤ buf.layout.size →
      HeapOwns regions (buf :: os) (room - growRoom) last' s' → SameBlocks os s s' →
      (∀ cs, HeaderList s.heap cs → ∃ cs', grown this.items.length this.buf cs = (some buf, cs') ∧
        HeaderList s'.heap cs') → post buf s')
    (hfail : ∀ s, room < growRoom → fails .outOfMemory s) : Ends this.grow s post fails := by
  have hold : ∀ old, this.buf = some old →
      old.layout.size ≤ 16 * max (max (this.capacity * 2) (this.items.length + 1)) 4 := by
    intro old ho
    rw [capacity, ho]
    dsimp only
    omega
  have hgrown (l : Layout) (buf : Block) (cs : List (Nat × Header))
      (hl : Layout.fromSizeAlign (16 * max (max (this.capacity * 2) (this.items.length + 1)) 4) 8 =
        some l) (haddr : serveAddr l cs = buf.ptr) (hbl : buf.layout = l) :
      grown this.items.length this.buf cs = (some buf, match this.buf with
        | none => serve l cs
        | some old => release old.ptr (serve l cs)) := by
    have hcapacity : capacity ⟨this.buf, []⟩ = this.capacity := rfl
    subst hbl
    simp only [grown, hcapacity, hl]
    rw [haddr]
  rw [grow]
  generalize hn : max (max (this.capacity * 2) (this.items.length + 1)) 4 = n at hold hgrown
  refine Ends.bind (arrayLayout_ends (k := 3) rfl (by omega) fun l hl hls hla => Ends.bind ?_)
  have hneeded : l.needed ≤ growRoom := by
    have hle : blockSize (16 * n) ≤ 2 ^ 16 := blockSize_le_pow (by omega) (by omega)
    have halign : blockAlign 8 = 32 := rfl
    rw [Layout.needed, hls, hla, halign, growRoom]
    omega
  refine Allocator.allocWithOptions_ends h (by omega) (fun buf s' hbl hb => ?_)
    fun hlt => hfail _ (by omega)
  subst hbl
  have hgrown' (cs : List (Nat × Header)) (hcs : HeaderList s.heap cs) :=
    hgrown buf.layout buf cs hl (hb.serveAddr hcs) rfl
  obtain ⟨buf', items⟩ := this
  cases buf' with
  | none =>
    exact hpost buf _ s' (by omega) (hb.owns.less (by omega)) hb.same fun cs hcs =>
      ⟨_, hgrown' cs hcs, hb.headers cs hcs⟩
  | some old =>
    have hcopy : ∀ a, (a < buf.ptr ∨ buf.ptr + buf.layout.size ≤ a) →
        copyBytes s'.heap.mem buf.ptr old.ptr old.layout.size a = s'.heap.mem a := by
      intro a ha
      have hle := hold old rfl
      exact if_neg (by omega)
    obtain ⟨howns, hsame⟩ := hb.owns.write [] hcopy
    refine Ends.bind (Ends.modify (Ends.bind ?_))
    refine Allocator.dealloc_ends [buf] howns fun t hfreed hsame' hreleased => ?_
    refine hpost buf _ t (by omega) (hfreed.less (by omega)) ?_ fun cs hcs =>
      ⟨_, hgrown' cs hcs, hreleased _ ?_⟩
    · have hsub : os ⊆ (some old).toList ++ os := List.subset_append_right _ _
      exact ((hb.same.trans hsame).mono hsub).trans (hsame'.mono (List.subset_append_right _ _))
    · exact hb.owns.write_headers List.mem_cons_self hcopy (hb.headers cs hcs)

theorem reserve_ends {post : Block → HeapRun → Prop}
    (h : HeapOwns regions (this.buf.toList ++ os) room last s) (hlen : this.items.length < 1024)
    (hpost : ∀ buf last' s', 16 * this.items.length + 16 ≤ buf.layout.size →
      HeapOwns regions (buf :: os) (room - growRoom) last' s' → SameBlocks os s s' →
      (∀ cs, HeaderList s.heap cs → ∃ cs',
        reserved this.items.length this.buf cs = (some buf, cs') ∧ HeaderList s'.heap cs') →
      post buf s')
    (hfail : ∀ s, room < growRoom → fails .outOfMemory s) : Ends this.reserve s post fails := by
  have hgrow (hcap : this.capacity ≤ this.items.length) : Ends this.grow s post fails := by
    refine grow_ends h hcap hlen (fun buf last' s' hbytes howns hsame hheaders => ?_) hfail
    refine hpost buf last' s' hbytes howns hsame fun cs hcs => ?_
    have hgrown : reserved this.items.length this.buf cs = grown this.items.length this.buf cs :=
      if_neg (Nat.not_lt.2 hcap)
    rw [hgrown]
    exact hheaders cs hcs
  obtain ⟨buf, items⟩ := this
  cases buf with
  | none => exact hgrow (Nat.zero_le _)
  | some buf =>
    by_cases hroom : items.length < capacity ⟨some buf, items⟩
    · rw [show reserve ⟨some buf, items⟩ = pure buf from if_pos hroom]
      refine hpost buf last s ?_ (h.less (Nat.sub_le _ _)) (.refl _ _) fun cs hcs =>
        ⟨cs, if_pos hroom, hcs⟩
      unfold capacity at hroom
      dsimp only at hroom ⊢
      omega
    · rw [show reserve ⟨some buf, items⟩ = grow ⟨some buf, items⟩ from if_neg hroom]
      exact hgrow (Nat.le_of_not_lt hroom)

theorem push_ends {post : BoxVec → HeapRun → Prop}
    (h : HeapOwns regions (b :: (this.buf.toList ++ os)) room last s)
    (hlen : this.items.length < 1024)
    (hpost : ∀ vec last' s', vec.items = this.items ++ [b] →
      HeapOwns regions (vec.buf.toList ++ b :: os) (room - growRoom) last' s' →
      SameBlocks (b :: os) s s' →
      (∀ cs, HeaderList s.heap cs → ∃ cs', reserved this.items.length this.buf cs = (vec.buf, cs') ∧
        HeaderList s'.heap cs') → post vec s')
    (hfail : ∀ s, room < growRoom → fails .outOfMemory s) : Ends (this.push b) s post fails := by
  refine Ends.bind (reserve_ends (h.perm List.perm_middle.symm) hlen ?_ hfail)
  intro buf last' s' hbytes howns hsame hheaders
  have hslot : ∀ a, (a < buf.ptr ∨ buf.ptr + buf.layout.size ≤ a) →
      writeLe (writeLe s'.heap.mem (buf.ptr + 16 * this.items.length) 8 b.ptr)
        (buf.ptr + 16 * this.items.length + 8) 8 b.layout.size a = s'.heap.mem a := by
    intro a ha
    simp only [writeLe]
    rw [if_neg (by omega), if_neg (by omega)]
  obtain ⟨howns', hsame'⟩ := howns.write [] hslot
  refine Ends.bind (Ends.modify (hpost ⟨some buf, this.items ++ [b]⟩ last' _ rfl howns'
    (hsame.trans hsame') fun cs hcs => ?_))
  obtain ⟨cs', hreserved, hcs'⟩ := hheaders cs hcs
  exact ⟨cs', hreserved, howns.write_headers List.mem_cons_self hslot hcs'⟩

end BoxVec

end

end Wasabi
