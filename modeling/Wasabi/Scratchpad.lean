import Wasabi.Boxes
import Wasabi.DeviceSlots

namespace Wasabi
set_option autoImplicit true

open Header

structure ScratchpadBuffers where
  table : Block
  bufs : BoxVec

namespace ScratchpadBuffers

/-- A page-aligned allocation, which is leaked, and the box of its copy. -/
def alignedBox (msg : String) (size align pageSize : Nat) : BoxM Block := do
  match Layout.fromSizeAlign size pageSize with
  | none => throw (.err msg)
  | some layout => do
    let slice ← Allocator.allocWithOptions layout
    boxFrom slice.ptr size align

def allocTable (num pageSize : Nat) : BoxM Block := do
  let bytes ← MonadExcept.ofExcept (checkedMul 8 num)
  alignedBox "cloud not allocate scratchpad buffer table" bytes 8 pageSize

def allocBuf (pageSize : Nat) : BoxM Block :=
  alignedBox "could not allocated a scratchpad buffer" pageSize 1 pageSize

def fillEntry (table : Block) (pageSize i : Nat) (bufs : BoxVec) : BoxM BoxVec := do
  let buf ← allocBuf pageSize
  modifyMem fun m => writeLe m (table.ptr + 8 * i) 8 buf.ptr
  bufs.push buf

def fill (table : Block) (pageSize : Nat) : Nat → Nat → BoxVec → BoxM BoxVec
  | 0, _, bufs => return bufs
  | n + 1, i, bufs => do
    let bufs ← fillEntry table pageSize i bufs
    fill table pageSize n (i + 1) bufs

def alloc (capRegs : CapabilityRegisters) (pagesize : BitVec 32) : BoxM ScratchpadBuffers := do
  let pageSize ← MonadExcept.ofExcept (OperationalRegisters.pageSize pagesize)
  let num := max capRegs.numScratchpadBufs 1
  let table ← allocTable num pageSize
  let bufs ← fill table pageSize num 0 .new
  return ⟨table, bufs⟩

/-- The header list after an aligned allocation and its copy. -/
def boxed (size align pageSize : Nat) (cs : List (Nat × Header)) : List (Nat × Header) :=
  serveArray size align (serveArray size pageSize cs)

/-- After an aligned allocation, the first header with room for its copy ends the size of the copy's
block above a multiple of the page size. -/
def CopyAbovePage (size align pageSize : Nat) (cs : List (Nat × Header)) : Prop :=
  ∃ l ∈ Layout.fromSizeAlign size align, EndsAbove pageSize l (serveArray size pageSize cs)

/-- The same for the copies of `n` buffers, in turn, when `i` are in the `Vec` with the buffer
`buf`. -/
def CopiesAbovePage (pageSize : Nat) : Nat → Nat → Option Block → List (Nat × Header) → Prop
  | 0, _, _, _ => True
  | n + 1, i, buf, cs =>
    CopyAbovePage pageSize 1 pageSize cs ∧
      CopiesAbovePage pageSize n (i + 1) (BoxVec.reserved i buf (boxed pageSize 1 pageSize cs)).1
        (BoxVec.reserved i buf (boxed pageSize 1 pageSize cs)).2

/-- First fit on the header list finds every copy such a header: first the one of the table, then
those of the `num` buffers. -/
def FitsPages (num pageSize : Nat) (cs : List (Nat × Header)) : Prop :=
  CopyAbovePage (8 * num) 8 pageSize cs ∧
    CopiesAbovePage pageSize num 0 none (boxed (8 * num) 8 pageSize cs)

def tablePtr (this : ScratchpadBuffers) : Nat :=
  (DeviceContextBaseAddressArray.new
    (BitVec.ofNat 64 this.table.ptr)).inner.scratchpadTablePtr.toNat

end ScratchpadBuffers

def tableEntries (m : Mem) (ptr n : Nat) : List Nat :=
  (List.range n).map fun i => readLe m (ptr + 8 * i) 8

/-- What the controller relies on: a table of `num` pages, each in a live block of its own. -/
structure ScratchpadBuffers.Usable (pageSize num : Nat) (this : ScratchpadBuffers)
    (s : HeapRun) : Prop where
  table_live : this.table ∈ s.live
  table_size : this.table.layout.size = 8 * num
  table_ptr : this.tablePtr = this.table.ptr
  table_aligned : pageSize ∣ this.tablePtr
  entries : tableEntries s.heap.mem this.tablePtr num = this.bufs.items.map (·.ptr)
  bufs_live : ∀ b ∈ this.bufs.items, b ∈ s.live
  bufs_size : ∀ b ∈ this.bufs.items, b.layout.size = pageSize
  bufs_aligned : ∀ b ∈ this.bufs.items, pageSize ∣ b.ptr
  bufs_apart : this.bufs.items.Pairwise fun a b => Apart a.ptr a.layout.size b.ptr b.layout.size

theorem tableEntries_congr (h : SameOn m m' ptr (8 * n)) :
    tableEntries m' ptr n = tableEntries m ptr n := by
  apply List.map_congr_left
  intro i hi
  have hlt := List.mem_range.1 hi
  exact readLe_congr (h.mono (by omega) (by omega))

theorem tableEntries_write (hv : v < 2 ^ 64) :
    tableEntries (writeLe m (ptr + 8 * n) 8 v) ptr (n + 1) = tableEntries m ptr n ++ [v] := by
  have hold : tableEntries (writeLe m (ptr + 8 * n) 8 v) ptr n = tableEntries m ptr n :=
    tableEntries_congr (writeLe_same_on (by omega))
  have hnew : readLe (writeLe m (ptr + 8 * n) 8 v) (ptr + 8 * n) 8 = v :=
    readLe_writeLe_of_lt (lt_of_lt_of_eq hv (by norm_num))
  rw [tableEntries, List.range_succ, List.map_append, List.map_singleton, hnew]
  rw [tableEntries] at hold
  rw [hold]

namespace ScratchpadBuffers

/-- The loop after some entries: every box so far has its entry, and `fits` says that all of them
are aligned and that the copies to come will be. -/
structure Filling (regions : List (Nat × Nat)) (pageSize num : Nat) (fits : Prop) (table : Block)
    (bufs : BoxVec) (room last : Nat) (s : HeapRun) : Prop where
  owns : HeapOwns regions (bufs.buf.toList ++ (bufs.items.reverse ++ [table])) room last s
  table_size : table.layout.size = 8 * num
  entries : tableEntries s.heap.mem table.ptr bufs.items.length = bufs.items.map (·.ptr)
  bufs_size : ∀ b ∈ bufs.items, b.layout.size = pageSize
  aligned : ∀ cs, HeaderList s.heap cs →
    (((pageSize ∣ table.ptr ∧ ∀ b ∈ bufs.items, pageSize ∣ b.ptr) ∧
      CopiesAbovePage pageSize (num - bufs.items.length) bufs.items.length bufs.buf cs) ↔ fits)

theorem blockAlign_two_pow (hk : 5 ≤ k) : blockAlign (2 ^ k) = 2 ^ k :=
  Nat.max_eq_left (Nat.pow_le_pow_right (n := 2) (i := 5) (by omega) hk)

theorem page_bounds (hk : 12 ≤ k) (hk' : k ≤ 27) : 2 ^ 12 ≤ 2 ^ k ∧ 2 ^ k ≤ 2 ^ 27 :=
  ⟨Nat.pow_le_pow_right (by omega) hk, Nat.pow_le_pow_right (by omega) hk'⟩

section
variable {regions : List (Nat × Nat)} {os : List Block} {room last : Nat} {s : HeapRun}
  {fails : Fault → HeapRun → Prop} {table : Block} {bufs : BoxVec}
  {size align : Nat}

/-- A copy that is carved right below the header of a page-aligned object is never page-aligned. -/
theorem below_page_misaligned (hk : 12 ≤ k) (ha : 2 ^ k ∣ a)
    (hpos : 0 < a - headerSize - blockSize size) : ¬2 ^ k ∣ a - headerSize - blockSize size := by
  intro hd
  have hpage : 2 ^ 12 ∣ 2 ^ k := Nat.pow_dvd_pow 2 hk
  have ha' := Nat.mod_eq_zero_of_dvd (hpage.trans ha)
  have hd' := Nat.mod_eq_zero_of_dvd (hpage.trans hd)
  unfold headerSize at hpos hd'
  obtain ⟨j, he, hj⟩ := blockSize_pow size
  by_cases hj5 : j = 5
  · rw [hj5] at he
    omega
  · have h64 : 2 ^ 6 ∣ blockSize size := he ▸ Nat.pow_dvd_pow 2 (by omega)
    have hm := Nat.mod_eq_zero_of_dvd h64
    omega

def pairRoom (size pageSize : Nat) : Nat := 2 * blockSize size + pageSize + 160

def stepRoom (pageSize : Nat) : Nat := pairRoom pageSize pageSize + BoxVec.growRoom

theorem alignedBox_ends {post : Block → HeapRun → Prop} (h : HeapOwns regions os room last s)
    (hk : 12 ≤ k) (hk' : k ≤ 27) (halign : align = 2 ^ j) (hj : j ≤ 5) (hpos : 0 < size)
    (hsize : size ≤ 2 ^ 27)
    (hpost : ∀ b last' s', b.layout.size = size →
      HeapOwns regions (b :: os) (room - pairRoom size (2 ^ k)) last' s' → SameBlocks os s s' →
      Relisted (boxed size align (2 ^ k)) s s' →
      (∀ cs, HeaderList s.heap cs → (2 ^ k ∣ b.ptr ↔ CopyAbovePage size align (2 ^ k) cs)) →
      (pairRoom size (2 ^ k) ≤ room → ¬2 ^ k ∣ b.ptr) → post b s')
    (hfail : ∀ s, room < pairRoom size (2 ^ k) → fails .outOfMemory s) :
    Ends (alignedBox msg size align (2 ^ k)) s post fails := by
  obtain ⟨_, hhi⟩ := page_bounds hk hk'
  obtain ⟨l, hl, hls, hla⟩ := Layout.fromSizeAlign_pow size k (by omega)
  have hneeded : l.needed = blockSize size + 64 + 2 ^ k := by
    rw [Layout.needed, hls, hla, blockAlign_two_pow (by omega)]
  unfold pairRoom at hpost hfail
  rw [alignedBox, hl]
  refine Ends.bind (Allocator.allocWithOptions_ends h (by omega) (fun raw s₁ hraw hb => ?_)
    fun hlt => hfail _ (by omega))
  subst hraw
  have hraw : 2 ^ k ∣ raw.ptr := hla ▸ hb.owns.aligned List.mem_cons_self
  have hserved (cs : List (Nat × Header)) (hcs : HeaderList s.heap cs) :
      HeaderList s₁.heap (serveArray size (2 ^ k) cs) := by
    rw [serveArray_eq hl]
    exact hb.headers cs hcs
  refine boxFrom_ends hb.owns halign hj hpos (by omega) (fun b s₂ hbl hbs hbox => ?_)
    fun t hlt => hfail t (by omega)
  have howns := hbox.owns
  have hlast := hbox.last
  rw [hbs] at howns hlast
  refine hpost b _ s₂ hbs ((howns.sublist ((List.sublist_cons_self raw os).cons_cons b)).less
    (by omega)) ?_ (fun cs hcs => ?_) (fun cs hcs => ?_) fun hroom => ?_
  · exact hb.same.trans (hbox.same.mono (List.subset_cons_self _ _))
  · rw [boxed, serveArray_eq hbl]
    exact hbox.headers _ (hserved cs hcs)
  · rw [CopyAbovePage, hbl, hbox.aligned _ _ (hserved cs hcs)]
    simp
  · have hbpos := (howns.ptr_bounds List.mem_cons_self).1
    rw [hlast (by omega)] at hbpos ⊢
    exact below_page_misaligned hk hraw hbpos

theorem fillEntry_ends {post : BoxVec → HeapRun → Prop} (hk : 12 ≤ k) (hk' : k ≤ 27)
    (h : Filling regions (2 ^ k) num fits table bufs room last s)
    (hlen : bufs.items.length < num) (hnum : num ≤ 1024)
    (hpost : ∀ vec last' s', vec.items.length = bufs.items.length + 1 →
      Filling regions (2 ^ k) num fits table vec (room - stepRoom (2 ^ k)) last' s' → post vec s')
    (hfail : ∀ s, room < stepRoom (2 ^ k) → fails .outOfMemory s) :
    Ends (fillEntry table (2 ^ k) bufs.items.length bufs) s post fails := by
  have hsize := h.table_size
  obtain ⟨hlo, hhi⟩ := page_bounds hk hk'
  refine Ends.bind (alignedBox_ends (j := 0) h.owns hk hk' rfl (by omega) (by omega) hhi ?_
    fun t hlt => hfail t (by unfold stepRoom; omega))
  intro b last₁ s₁ hbsize howns hsame hboxed haligned _
  have hin : table ∈ bufs.buf.toList ++ (bufs.items.reverse ++ [table]) := by simp
  have hentry : ∀ a, (a < table.ptr ∨ table.ptr + table.layout.size ≤ a) →
      writeLe s₁.heap.mem (table.ptr + 8 * bufs.items.length) 8 b.ptr a = s₁.heap.mem a :=
    fun a ha => if_neg (by omega)
  have hassoc : b :: (bufs.buf.toList ++ (bufs.items.reverse ++ [table])) =
      b :: (bufs.buf.toList ++ bufs.items.reverse) ++ [table] := by simp
  have hheaders₂ (cs : List (Nat × Header)) (hcs : HeaderList s₁.heap cs) :=
    howns.write_headers (List.mem_cons_of_mem _ hin) hentry hcs
  rw [hassoc] at howns
  obtain ⟨howns₂, _⟩ := howns.write _ hentry
  rw [← hassoc] at howns₂
  refine Ends.bind (Ends.modify (BoxVec.push_ends howns₂ (by omega) ?_
    fun t hlt => hfail t (by unfold stepRoom; omega)))
  intro vec last₃ s₃ hitems howns₃ hsame₃ hreserved
  have hvec : vec.items.length = bufs.items.length + 1 := by
    rw [hitems, List.length_append]
    rfl
  refine hpost vec last₃ s₃ hvec ⟨?_, hsize, ?_, ?_, fun cs₃ hcs₃ => ?_⟩
  · rw [hitems, List.reverse_append]
    exact howns₃.less (by unfold stepRoom; omega)
  · have htable := hsame₃ table (by simp)
    have hbefore : SameOn s.heap.mem s₁.heap.mem table.ptr (8 * bufs.items.length) :=
      (hsame table hin).mono (Nat.le_refl _) (by omega)
    rw [hitems, List.length_append, List.map_append, List.length_singleton, List.map_singleton,
      tableEntries_congr (htable.mono (Nat.le_refl _) (by omega)),
      tableEntries_write (howns.ptr_bounds List.mem_cons_self).2, tableEntries_congr hbefore,
      h.entries]
  · rw [hitems, List.forall_mem_append]
    exact ⟨h.bufs_size, List.forall_mem_singleton.2 hbsize⟩
  · -- The headers of the new state are those that `CopiesAbovePage` goes on with.
    obtain ⟨cs, hinv, _⟩ := h.owns.inv
    obtain ⟨cs', hreserved, hcs'⟩ := hreserved _ (hheaders₂ _ (hboxed cs hinv.list))
    obtain rfl := hcs₃.unique hcs'
    have hrounds : num - bufs.items.length = num - vec.items.length + 1 := by omega
    rw [← h.aligned cs hinv.list, hrounds, CopiesAbovePage, hreserved, ← haligned cs hinv.list,
      hitems, List.forall_mem_append, List.forall_mem_singleton, ← hitems, hvec, ← and_assoc,
      ← and_assoc]

theorem fill_ends {post : BoxVec → HeapRun → Prop} (hk : 12 ≤ k) (hk' : k ≤ 27)
    (h : Filling regions (2 ^ k) num fits table bufs room last s)
    (hlen : bufs.items.length + n = num) (hnum : num ≤ 1024)
    (hpost : ∀ vec last' s', vec.items.length = num →
      Filling regions (2 ^ k) num fits table vec (room - n * stepRoom (2 ^ k)) last' s' →
      post vec s')
    (hfail : ∀ s, room < n * stepRoom (2 ^ k) → fails .outOfMemory s) :
    Ends (fill table (2 ^ k) n bufs.items.length bufs) s post fails := by
  induction n generalizing bufs room last s with
  | zero => exact hpost bufs last s hlen (by simpa using h)
  | succ n ih =>
    rw [Nat.succ_mul] at hpost hfail
    refine Ends.bind (fillEntry_ends hk hk' h (by omega) hnum ?_
      fun t hlt => hfail t (by omega))
    intro vec last₁ s₁ hvec hfilling
    rw [← hvec]
    refine ih hfilling (by omega) ?_ fun t hlt => hfail t (by omega)
    intro vec' last₂ s₂ hvec' hfilled
    refine hpost vec' last₂ s₂ hvec' ?_
    rwa [Nat.sub_sub, Nat.add_comm] at hfilled

/-- The room that everything takes at most. -/
def allocRoom (num pageSize : Nat) : Nat :=
  pairRoom (8 * num) pageSize + num * stepRoom pageSize

/-- The call fills the table. A first header with room for everything serves the table and its copy,
which is then never aligned. -/
theorem alloc_ends {post : ScratchpadBuffers → HeapRun → Prop} {capRegs : CapabilityRegisters}
    (h : HeapOwns regions [] room last s) (hcs : HeaderList s.heap cs) (hn : n < 16)
    (hbit : pagesize &&& 0xffff#32 = 1#32 <<< n)
    (hpost : ∀ bufs last' s', bufs.bufs.items.length = max capRegs.numScratchpadBufs 1 →
      Filling regions (2 ^ (n + 12)) (max capRegs.numScratchpadBufs 1)
        (FitsPages (max capRegs.numScratchpadBufs 1) (2 ^ (n + 12)) cs) bufs.table bufs.bufs
        (room - allocRoom (max capRegs.numScratchpadBufs 1) (2 ^ (n + 12))) last' s' →
      (allocRoom (max capRegs.numScratchpadBufs 1) (2 ^ (n + 12)) ≤ room →
        ¬2 ^ (n + 12) ∣ bufs.table.ptr) → post bufs s')
    (hfail : ∀ s, room < allocRoom (max capRegs.numScratchpadBufs 1) (2 ^ (n + 12)) →
      fails .outOfMemory s) : Ends (alloc capRegs pagesize) s post fails := by
  have hlt := capRegs.numScratchpadBufs_lt
  rw [alloc]
  generalize hnum : max capRegs.numScratchpadBufs 1 = num at hpost hfail
  generalize hk : n + 12 = k at hpost hfail
  have hsize := OperationalRegisters.pageSize_ok hn hbit
  rw [hk] at hsize
  unfold allocRoom at hpost hfail
  refine Ends.bind (Ends.ofExcept hsize (Ends.bind (Ends.bind (Ends.ofExcept
    (checkedMul_ok (by omega)) (alignedBox_ends (j := 3) h (by omega) (by omega) rfl (by omega)
      (by omega) (by omega) ?_ fun t hlt => hfail t (by omega))))))
  intro table last₁ s₁ htsize howns _ hboxed haligned hmis
  have hfilling : Filling regions (2 ^ k) num (FitsPages num (2 ^ k) cs) table .new
      (room - pairRoom (8 * num) (2 ^ k)) last₁ s₁ := by
    refine ⟨howns, htsize, rfl, List.forall_mem_nil _, fun cs₁ hcs₁ => ?_⟩
    obtain rfl := hcs₁.unique (hboxed cs hcs)
    rw [FitsPages, haligned cs hcs]
    simp [BoxVec.new]
  refine Ends.bind (fill_ends (by omega) (by omega) hfilling (Nat.zero_add num) (by omega)
    (fun vec last' s₂ hvec hfilled => ?_) fun t hlt => hfail t (by omega))
  rw [Nat.sub_sub] at hfilled
  exact hpost ⟨table, vec⟩ last' s₂ hvec hfilled fun hroom => hmis (by omega)

theorem Filling.usable_iff {pageSize : Nat} {bufs : ScratchpadBuffers}
    (h : Filling regions pageSize num fits bufs.table bufs.bufs room last s)
    (hlen : bufs.bufs.items.length = num) : bufs.Usable pageSize num s ↔ fits := by
  have hptr : bufs.tablePtr = bufs.table.ptr := by
    have hlt := (h.owns.ptr_bounds (b := bufs.table) (by simp)).2
    exact Nat.mod_eq_of_lt hlt
  obtain ⟨cs, hinv, _⟩ := h.owns.inv
  have haligned := h.aligned cs hinv.list
  rw [hlen, Nat.sub_self, CopiesAbovePage, and_true] at haligned
  rw [← haligned]
  constructor
  · intro hu
    exact ⟨hptr ▸ hu.table_aligned, hu.bufs_aligned⟩
  · rintro ⟨htable, hbufs⟩
    have hapart := (hinv.sublist (List.sublist_append_right _ _)).blocks_apart
    refine ⟨h.owns.live _ (by simp), h.table_size, hptr, hptr ▸ htable, ?_, fun b hb =>
      h.owns.live b (by simp [hb]), h.bufs_size, hbufs, ?_⟩
    · rw [hptr, ← hlen]
      exact h.entries
    · exact (List.pairwise_reverse.1 (List.pairwise_append.1 hapart).1).imp fun h => h.symm

theorem alloc_filling {capRegs : CapabilityRegisters} {bufs : ScratchpadBuffers} {s : HeapRun}
    (h : HeapInv regions s.heap live cs) (hn : n < 16)
    (hbit : pagesize &&& 0xffff#32 = 1#32 <<< n) (halloc : alloc capRegs pagesize s = .ok bufs t) :
    bufs.bufs.items.length = max capRegs.numScratchpadBufs 1 ∧
      ∃ room last, Filling regions (2 ^ (n + 12)) (max capRegs.numScratchpadBufs 1)
        (FitsPages (max capRegs.numScratchpadBufs 1) (2 ^ (n + 12)) cs) bufs.table bufs.bufs room
        last t := by
  obtain ⟨_, _, howns, _⟩ := (h.sublist (List.nil_sublist _)).owns (List.forall_mem_nil _) 0
  have hends : Ends (alloc capRegs pagesize) s
      (fun bufs t => bufs.bufs.items.length = max capRegs.numScratchpadBufs 1 ∧
        ∃ room last, Filling regions (2 ^ (n + 12)) (max capRegs.numScratchpadBufs 1)
          (FitsPages (max capRegs.numScratchpadBufs 1) (2 ^ (n + 12)) cs) bufs.table bufs.bufs room
          last t) fun _ _ => True :=
    alloc_ends howns h.list hn hbit
      (fun _ last _ hlen hfilled _ => ⟨hlen, _, last, hfilled⟩) fun _ _ => trivial
  exact hends.of_ok halloc

/-- A heap whose first header is free and has room for everything serves every request, and its
table is never aligned. -/
theorem alloc_misaligned (capRegs : CapabilityRegisters) {s : HeapRun}
    (h : HeapInv regions s.heap live (c :: cs)) (hfree : c.2.isAllocated = false) (hn : n < 16)
    (hbit : pagesize &&& 0xffff#32 = 1#32 <<< n)
    (hroom : allocRoom (max capRegs.numScratchpadBufs 1) (2 ^ (n + 12)) ≤ c.2.size) :
    ∃ bufs t, alloc capRegs pagesize s = .ok bufs t ∧ ¬2 ^ (n + 12) ∣ bufs.table.ptr := by
  have howns : HeapOwns regions [] c.2.size (c.1 + c.2.size) s :=
    ⟨⟨c :: cs, h.sublist (List.nil_sublist _),
      fun _ => ⟨c, cs, rfl, hfree, Nat.le_refl _, rfl⟩⟩, List.forall_mem_nil _⟩
  have hends : Ends (alloc capRegs pagesize) s
      (fun bufs _ => ¬2 ^ (n + 12) ∣ bufs.table.ptr) fun _ _ => False :=
    alloc_ends howns h.list hn hbit (fun _ _ _ _ _ hmis => hmis (by omega)) fun _ hlt => by omega
  exact hends.returns fun _ _ => id

end

end ScratchpadBuffers

open ScratchpadBuffers in
/-- On every heap that runs after `init_with_mmap` lead to, the header list before the call decides:
the buffers are usable exactly when first fit finds, for each copy in turn, a header that ends the
size of the copy's block above a multiple of the page size. -/
theorem scratchpad_usable_iff (hv : EfiMemoryDescriptor.ValidMap map) (m : Mem)
    (hinit : Heap.initWithMmap ⟨m, none⟩ map = .ok heap) (hrun : Runs HeapStep ⟨heap, []⟩ s)
    (capRegs : CapabilityRegisters) (pagesize : BitVec 32) (hn : n < 16)
    (hbit : pagesize &&& 0xffff#32 = 1#32 <<< n) :
    ∃ cs, HeaderList s.heap cs ∧ ∀ bufs t, alloc capRegs pagesize s = .ok bufs t →
      (bufs.Usable (2 ^ (n + 12)) (max capRegs.numScratchpadBufs 1) t ↔
        FitsPages (max capRegs.numScratchpadBufs 1) (2 ^ (n + 12)) cs) := by
  obtain ⟨heap', hinit', hruns⟩ := heapInv_of_runs hv m
  rw [hinit'] at hinit
  cases hinit
  obtain ⟨cs, hinv⟩ := hruns s hrun
  refine ⟨cs, hinv.list, fun bufs t halloc => ?_⟩
  obtain ⟨hlen, room, last, hfilled⟩ := alloc_filling hinv hn hbit halloc
  exact hfilled.usable_iff hlen

def HeapRun.allocAll : List Layout → HeapRun → Except Fault HeapRun
  | [], s => return s
  | l :: ls, s => do
    let (ptr, heap) ← s.heap.allocWithOptions l
    allocAll ls ⟨heap, if ptr = 0 then s.live else ⟨ptr, l⟩ :: s.live⟩

theorem HeapRun.allocAll_runs (h : allocAll ls s = .ok t) : Runs HeapStep s t := by
  induction ls generalizing s with
  | nil =>
    cases h
    exact .refl
  | cons l ls ih =>
    obtain ⟨⟨ptr, heap⟩, hok, h⟩ := exists_of_bind h
    refine .head ?_ (ih h)
    by_cases hnull : ptr = 0
    · subst hnull
      exact .allocNull hok
    · rw [if_neg hnull]
      exact .alloc hok hnull

def oneBufRegs : CapabilityRegisters := ⟨0x20, 0, 0, 0, 0⟩

/-- Four regions of conventional memory; the last one is the first of the header list. -/
def pagedMap : List EfiMemoryDescriptor :=
  [⟨.conventionalMemory, 0x40000, 3⟩, ⟨.conventionalMemory, 0x30000, 2⟩,
    ⟨.conventionalMemory, 0x20000, 2⟩, ⟨.conventionalMemory, 0x10000, 2⟩]

theorem pagedMap_valid : EfiMemoryDescriptor.ValidMap pagedMap := by
  refine ⟨by decide, by decide, ?_⟩
  simp [pagedMap, EfiMemoryDescriptor.physicalEnd]

/-- Requests after which the first header ends 32 bytes above a multiple of the page size. -/
def pagedRequests : List Layout :=
  [⟨2048, 8, ⟨3, rfl⟩, by decide⟩, ⟨1024, 8, ⟨3, rfl⟩, by decide⟩, ⟨512, 8, ⟨3, rfl⟩, by decide⟩,
    ⟨256, 8, ⟨3, rfl⟩, by decide⟩, ⟨64, 8, ⟨3, rfl⟩, by decide⟩]

/-- Whether everything is aligned after the requests. -/
def pagedAligned : Except Fault Bool := do
  let heap ← Heap.initWithMmap ⟨fun _ => 0, none⟩ pagedMap
  let s ← HeapRun.allocAll pagedRequests ⟨heap, []⟩
  match ScratchpadBuffers.alloc oneBufRegs 1 s with
  | .ok bufs _ => return bufs.table.ptr % 4096 == 0 && bufs.bufs.items.all (·.ptr % 4096 == 0)
  | .error e _ => throw e

theorem pagedAligned_eq : pagedAligned = .ok true := by decide +kernel

theorem scratchpad_usable_iff_paged :
    ∃ heap s cs bufs t, Heap.initWithMmap ⟨fun _ => 0, none⟩ pagedMap = .ok heap ∧
      Runs HeapStep ⟨heap, []⟩ s ∧ HeaderList s.heap cs ∧
      ScratchpadBuffers.alloc oneBufRegs 1 s = .ok bufs t ∧ bufs.Usable 4096 1 t ∧
      ScratchpadBuffers.FitsPages 1 4096 cs := by
  obtain ⟨heap, hinit, haligned⟩ := exists_of_bind pagedAligned_eq
  obtain ⟨s, hrequests, haligned⟩ := exists_of_bind haligned
  have hrun := HeapRun.allocAll_runs hrequests
  cases halloc : ScratchpadBuffers.alloc oneBufRegs 1 s with
  | error e t =>
    rw [halloc] at haligned
    cases haligned
  | ok bufs t =>
    rw [halloc] at haligned
    have hboth := Bool.and_eq_true_iff.1 (Except.ok.inj haligned)
    have htable : 2 ^ (0 + 12) ∣ bufs.table.ptr := Nat.dvd_of_mod_eq_zero (by simpa using hboth.1)
    have hbufs : ∀ b ∈ bufs.bufs.items, 2 ^ (0 + 12) ∣ b.ptr := fun b hb =>
      Nat.dvd_of_mod_eq_zero (by simpa using List.all_eq_true.1 hboth.2 b hb)
    obtain ⟨heap', hinit', hruns⟩ := heapInv_of_runs pagedMap_valid fun _ => 0
    obtain rfl : heap = heap' := Except.ok.inj (hinit.symm.trans hinit')
    obtain ⟨cs, hinv⟩ := hruns s hrun
    have hbit : (1#32) &&& 0xffff#32 = 1#32 <<< 0 := by decide
    obtain ⟨ds, hds, husable⟩ := scratchpad_usable_iff pagedMap_valid (fun _ => 0) hinit hrun
      oneBufRegs 1 (by decide) hbit
    obtain rfl := hinv.list.unique hds
    obtain ⟨hlen, room, last, hfilled⟩ :=
      ScratchpadBuffers.alloc_filling hinv (by decide) hbit halloc
    obtain ⟨cs', hinv', _⟩ := hfilled.owns.inv
    have hrounds : ScratchpadBuffers.CopiesAbovePage (2 ^ (0 + 12))
        (max oneBufRegs.numScratchpadBufs 1 - bufs.bufs.items.length) bufs.bufs.items.length
        bufs.bufs.buf cs' := by
      rw [hlen, Nat.sub_self]
      trivial
    have hfits := (hfilled.aligned cs' hinv'.list).1 ⟨⟨htable, hbufs⟩, hrounds⟩
    exact ⟨heap, s, cs, bufs, t, hinit, hrun, hds, halloc, (husable bufs t halloc).2 hfits, hfits⟩

def longMap : List EfiMemoryDescriptor := [⟨.conventionalMemory, 4096, 64⟩]

theorem longMap_valid : EfiMemoryDescriptor.ValidMap longMap := by
  refine ⟨by decide, by decide, ?_⟩
  simp [longMap]

theorem table_below_page :
    EfiMemoryDescriptor.ValidMap longMap ∧ ∃ heap bufs t,
      Heap.initWithMmap ⟨fun _ => 0, none⟩ longMap = .ok heap ∧
      ScratchpadBuffers.alloc oneBufRegs 1 ⟨heap, []⟩ = .ok bufs t ∧
      ¬bufs.Usable 4096 1 t := by
  have hinv := HeapInv.single (fun _ => 0) 4096 (64 * 4096) (by decide) (by decide) (by decide)
    (by decide) (by decide)
  have hbit : (1#32) &&& 0xffff#32 = 1#32 <<< 0 := by decide
  obtain ⟨bufs, t, halloc, hmis⟩ := ScratchpadBuffers.alloc_misaligned oneBufRegs (s := ⟨_, []⟩)
    hinv rfl (by decide) hbit (by decide)
  refine ⟨longMap_valid, _, bufs, t, rfl, halloc, fun hu => hmis ?_⟩
  exact hu.table_ptr ▸ hu.table_aligned

end Wasabi
