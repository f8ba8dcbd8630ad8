import Wasabi.KernelHeap

namespace Wasabi
set_option autoImplicit true

open Entry Table PML4

def PML4.new (boxNew : BoxNew α) : Run α Nat := do
  match boxNew (← get) with
  | none => throw .outOfMemory
  | some (root, s) =>
    set s
    return root

namespace EfiMemoryDescriptor

/-- The memory that the initial page mapping is meant to cover. -/
def Mappable (d : EfiMemoryDescriptor) : Prop :=
  d.memoryType = .conventionalMemory ∨ d.memoryType = .loaderCode ∨ d.memoryType = .loaderData

instance (d : EfiMemoryDescriptor) : Decidable d.Mappable := inferInstanceAs (Decidable (_ ∨ _))

end EfiMemoryDescriptor

/-- One step of the scan of the memory map in `init_paging`. -/
def scanDescriptor (endOfMem : Nat) (e : EfiMemoryDescriptor) : Except Fault Nat := do
  if e.Mappable then
    return max endOfMem (← checkedAdd e.physicalStart (← checkedMul e.numberOfPages pageSize))
  else return endOfMem

def endOfMem (map : List EfiMemoryDescriptor) : Except Fault Nat :=
  map.foldlM scanDescriptor 0x1_0000_0000

/-- `init_paging`, up to the value that it writes to CR3. -/
def initPaging (map : List EfiMemoryDescriptor) : Run KernelHeap Nat := do
  let table ← PML4.new tableNew
  let endOfMem ← MonadExcept.ofExcept (endOfMem map)
  createMapping tableNew table 0 endOfMem 0 .readWriteKernel
  createMapping tableNew table 0 4096 0 .notPresent
  return table

/-- `disable_cache` of an `IoBox` and of a BAR: both remap a range in the current page table. -/
def disableCache (cr3 vstart size : Nat) : Run KernelHeap Unit := do
  let vend ← MonadExcept.ofExcept (checkedAdd vstart size)
  createMapping tableNew cr3 vstart vend vstart .readWriteIo

/-- The machine before `init_paging`, with the objects that have been allocated. -/
def Machine.booted (r : HeapRun) : Machine KernelHeap :=
  ⟨r.heap.mem, r.heap.firstHeader, r.live, []⟩

/-- The kernel after `init_paging`. `uncached` lists the ranges given to `disable_cache`. -/
structure Kernel where
  machine : Machine KernelHeap
  cr3 : Nat
  uncached : List (Nat × Nat)

/-- Ranges that `disable_cache` is called with: the data of an `IoBox`, or the range of a BAR. -/
inductive Kernel.IoRange (k : Kernel) : Nat → Nat → Prop where
  | ioBox (b : Block) : b ∈ k.machine.heap.boxes → b.layout.align % 4096 = 0 →
      size ≤ b.layout.size → k.IoRange b.ptr size
  | bar : addr ≠ 0 → addr % 4096 = 0 → addr + size < 2 ^ 48 → k.IoRange addr size

inductive KernelStep : Kernel → Kernel → Prop where
  | heap : HeapStep ⟨k.machine.toHeap, k.machine.heap.boxes⟩ ⟨⟨mem, firstHeader⟩, boxes⟩ →
      KernelStep k { k with machine := ⟨mem, ⟨firstHeader, boxes, k.machine.heap.tables⟩⟩ }
  | disableCache : k.IoRange vstart size →
      disableCache k.cr3 vstart size k.machine = .ok () machine →
      KernelStep k ⟨machine, k.cr3, (vstart, vstart + size) :: k.uncached⟩

section
variable {map : List EfiMemoryDescriptor} {d : EfiMemoryDescriptor} {e : Nat}

theorem scanDescriptor_eq (hd : d.Mappable → d.physicalEnd < 2 ^ 64) :
    scanDescriptor e d = .ok (if d.Mappable then max e d.physicalEnd else e) := by
  unfold scanDescriptor
  by_cases hm : d.Mappable
  · have hend := hd hm
    unfold EfiMemoryDescriptor.physicalEnd at hend
    have hpage : pageSize = 4096 := rfl
    rw [if_pos hm, if_pos hm, hpage, checkedMul_ok (by omega), ok_bind, checkedAdd_ok (by omega)]
    rfl
  · rw [if_neg hm, if_neg hm]
    rfl

theorem scan_eq (hb : ∀ d ∈ map, d.Mappable → d.physicalEnd ≤ 2 ^ 47) (he : e ≤ 2 ^ 47) :
    ∃ e', map.foldlM scanDescriptor e = .ok e' ∧ e ≤ e' ∧ e' ≤ 2 ^ 47 ∧
      ∀ d ∈ map, d.Mappable → d.physicalEnd ≤ e' := by
  induction map generalizing e with
  | nil => exact ⟨e, rfl, Nat.le_refl _, he, by simp⟩
  | cons d map ih =>
    obtain ⟨hd, hmap⟩ := List.forall_mem_cons.1 hb
    rw [List.foldlM_cons, scanDescriptor_eq (fun hm => by have := hd hm; omega), ok_bind]
    by_cases hm : d.Mappable
    · have hend := hd hm
      rw [if_pos hm]
      obtain ⟨e', hok, hle, hhi, hcover⟩ := ih hmap (e := max e d.physicalEnd) (by omega)
      exact ⟨e', hok, by omega, hhi, List.forall_mem_cons.2 ⟨fun _ => by omega, hcover⟩⟩
    · rw [if_neg hm]
      obtain ⟨e', hok, hle, hhi, hcover⟩ := ih hmap he
      exact ⟨e', hok, hle, hhi, List.forall_mem_cons.2 ⟨fun h => absurd h hm, hcover⟩⟩

end

def Covered (map : List EfiMemoryDescriptor) (v : Nat) : Prop :=
  v < 2 ^ 32 ∨ ∃ d ∈ map, d.Mappable ∧ v < d.physicalEnd

structure Leaves (map : List EfiMemoryDescriptor) (m : Mem) (cr3 : Nat)
    (uncached : List (Nat × Nat)) : Prop where
  leaf : ∀ v < 2 ^ 48, v % 4096 = 0 → ∀ e, translate m cr3 v = some e →
    e = v ||| PageAttr.readWriteKernel.bits ∨ e = v ||| PageAttr.readWriteIo.bits
  null : translate m cr3 0 = none
  present : ∀ v < 2 ^ 48, v % 4096 = 0 → v ≠ 0 → Covered map v → translate m cr3 v ≠ none
  io : ∀ r ∈ uncached, ∀ v < 2 ^ 48, v % 4096 = 0 → r.1 < v + 4096 → v < r.2 →
    translate m cr3 v = some (v ||| PageAttr.readWriteIo.bits)

theorem translate_of_walk (h : walk m root v = some (v ||| a)) (hv : v % 4096 = 0)
    (ha : a < 4096) : translate m root v = if a % 2 = 1 then some (v ||| a) else none := by
  have hor := lor_eq_add hv ha
  rw [translate, h, Option.filter_some, land_present, hor]
  by_cases hodd : a % 2 = 1
  · rw [if_pos hodd, if_pos (by simp; omega)]
  · rw [if_neg hodd, if_neg (by simp; omega)]

theorem Leaves.init (hlo : 2 ^ 32 ≤ e) (hhi : e ≤ 2 ^ 47)
    (hcover : ∀ d ∈ map, d.Mappable → d.physicalEnd ≤ e) (h0 : ∀ v, walk m0 root v = none)
    (h1 : ∀ v < 2 ^ 48, v % 4096 = 0 → if 0 ≤ v ∧ v < max e (0 + 1) then
      walk m1 root v = some (v ||| PageAttr.readWriteKernel.bits)
      else translate m1 root v = translate m0 root v)
    (h2 : ∀ v < 2 ^ 48, v % 4096 = 0 → if 0 ≤ v ∧ v < max 4096 (0 + 1) then
      walk m2 root v = some (v ||| PageAttr.notPresent.bits)
      else translate m2 root v = translate m1 root v) : Leaves map m2 root [] := by
  have hval : ∀ v < 2 ^ 48, v % 4096 = 0 → v ≠ 0 → translate m2 root v =
      if v < e then some (v ||| PageAttr.readWriteKernel.bits) else none := by
    intro v hv hva hne
    have hv1 := h1 v hv hva
    have hv2 := h2 v hv hva
    rw [if_neg (by omega)] at hv2
    rw [hv2]
    by_cases hve : v < e
    · rw [if_pos (by omega)] at hv1
      rw [if_pos hve, translate_of_walk hv1 hva (by decide)]
      rfl
    · have hv0 : translate m0 root v = none := by
        rw [translate, h0]
        rfl
      rw [if_neg (by omega)] at hv1
      rw [if_neg hve, hv1, hv0]
  have hnull : translate m2 root 0 = none := by
    have hv2 := h2 0 (by omega) rfl
    rw [if_pos (by omega)] at hv2
    exact translate_of_walk hv2 rfl (by decide)
  refine ⟨fun v hv hva f hf => ?_, hnull, fun v hv hva hne hc => ?_, by simp⟩
  · rcases Nat.eq_zero_or_pos v with rfl | hpos
    · exact absurd (hf.symm.trans hnull) (Option.some_ne_none _)
    · rw [hval v hv hva (by omega)] at hf
      split at hf
      · exact .inl (Option.some.inj hf).symm
      · cases hf
  · have hve : v < e := by
      rcases hc with hc | ⟨d, hd, hm, hc⟩
      · omega
      · exact lt_of_lt_of_le hc (hcover d hd hm)
    rw [hval v hv hva hne, if_pos hve]
    exact Option.some_ne_none _

/-- Setting up the page table fails only for want of memory. -/
theorem initPaging_ends {map : List EfiMemoryDescriptor}
    (hb : ∀ d ∈ map, d.Mappable → d.physicalEnd ≤ 2 ^ 47) (h : OwnsPages regions boxes n [] s) :
    Ends (initPaging map) s
      (fun cr3 s' => (∃ ts, Tables (OwnsPages regions boxes n) cr3 ts s') ∧
        Leaves map s'.mem cr3 [])
      (fun e s' => e = .outOfMemory ∧ tableNew s' = none ∧ n ≤ maxTables) := by
  have hfresh := tableNew_fresh regions boxes n
  obtain ⟨e, hscan, hlo, hhi, hcover⟩ := scan_eq hb (e := 0x1_0000_0000) (by omega)
  refine Ends.bind (Ends.bind (Ends.get ?_))
  cases hnew : tableNew s with
  | none => exact Ends.throw ⟨rfl, hnew, tableNew_refuses h (Nat.zero_le _) hnew⟩
  | some r =>
    obtain ⟨root, s0⟩ := r
    obtain ⟨hroot, hempty⟩ := Tables.fresh hfresh h hnew
    refine Ends.bind (Ends.set (Ends.pure (Ends.bind (Ends.ofExcept hscan (Ends.bind
      ((identity_ends hfresh ⟨[root], hroot⟩ 0 e .readWriteKernel (by omega) (by omega)
        (by omega)).mono (fun _ s1 h1 => ?_) fun f s1 hf => ?_))))))
    · refine Ends.bind ((identity_ends hfresh h1.1 0 4096 .notPresent (by omega) (by omega)
        (by omega)).mono (fun _ s2 h2 => Ends.pure ⟨h2.1, ?_⟩) fun f s2 hf => ?_)
      · exact Leaves.init hlo hhi hcover hempty h1.2 h2.2
      · obtain ⟨rfl, hn, ts, hts⟩ := hf
        exact ⟨rfl, hn, tableNew_refuses hts.owns hts.length_le hn⟩
    · obtain ⟨rfl, hn, ts, hts⟩ := hf
      exact ⟨rfl, hn, tableNew_refuses hts.owns hts.length_le hn⟩

theorem OwnsPages.booted (h : HeapInv regions r.heap r.live cs) :
    OwnsPages regions r.live (capacity layoutPage4k cs) [] (.booted r) :=
  ⟨rfl, rfl, cs, by rwa [List.map_nil, List.append_nil], Nat.le_refl _⟩

/-- The invariant of the kernel: page tables and heap are in order, and every leaf is as it should
be. -/
structure KernelInv (map : List EfiMemoryDescriptor) (k : Kernel) : Prop where
  tables : ∃ ts, Tables (OwnsPages (freeRegions map) k.machine.heap.boxes 0) k.cr3 ts k.machine
  leaves : Leaves map k.machine.mem k.cr3 k.uncached

theorem KernelInv.start {machine : Machine KernelHeap}
    (htables : ∃ ts, Tables (OwnsPages (freeRegions map) boxes n) cr3 ts machine)
    (hleaves : Leaves map machine.mem cr3 []) : KernelInv map ⟨machine, cr3, []⟩ := by
  obtain ⟨ts, hts⟩ := htables
  have hpages := hts.owns.less (Nat.zero_le _)
  rw [← hpages.boxes_eq] at hpages
  exact ⟨⟨ts, hpages, hts.pages⟩, hleaves⟩

theorem KernelInv.ioRange (h : KernelInv map k)
    (hb : ∀ d ∈ map, d.Mappable → d.physicalEnd ≤ 2 ^ 47) (hr : k.IoRange vstart size) :
    vstart ≠ 0 ∧ vstart % 4096 = 0 ∧ vstart < 2 ^ 48 ∧ vstart + size ≤ 2 ^ 48 := by
  cases hr with
  | bar hne hmod hend => exact ⟨hne, hmod, by omega, by omega⟩
  | ioBox b hmem hal hsize =>
    obtain ⟨ts, hts⟩ := h.tables
    obtain ⟨cs, hinv, _⟩ := hts.owns.inv
    have hlive := List.mem_append_left (ts.map tableBlock) hmem
    have hmod := Nat.mod_eq_zero_of_dvd ((Nat.dvd_of_mod_eq_zero hal).trans (hinv.aligned hlive))
    obtain ⟨r, hr, hlo, hhi⟩ := hinv.bounds hlive
    have habove := hinv.good.above r hr
    obtain ⟨d, hd, hdr⟩ := List.mem_filterMap.1 (List.mem_reverse.1 hr)
    obtain ⟨hc, _, hrhi⟩ := EfiMemoryDescriptor.freeRegion_eq_some hdr
    have hend := hb d hd (.inl hc)
    exact ⟨by omega, hmod, by omega, by omega⟩

/-- Remapping a range for I/O keeps the leaves in order and makes the range uncached. -/
theorem Leaves.remap (h : Leaves map m cr3 uncached) (hne : vstart ≠ 0)
    (hmod : vstart % 4096 = 0)
    (hw : ∀ v < 2 ^ 48, v % 4096 = 0 → if vstart ≤ v ∧ v < max (vstart + size) (vstart + 1) then
      walk m' cr3 v = some (v ||| PageAttr.readWriteIo.bits)
      else translate m' cr3 v = translate m cr3 v) :
    Leaves map m' cr3 ((vstart, vstart + size) :: uncached) := by
  have hval : ∀ v < 2 ^ 48, v % 4096 = 0 →
      translate m' cr3 v = some (v ||| PageAttr.readWriteIo.bits) ∨
        (¬(vstart ≤ v ∧ v < vstart + size) ∧ translate m' cr3 v = translate m cr3 v) := by
    intro v hv hva
    have hv' := hw v hv hva
    split at hv'
    · exact .inl (translate_of_walk hv' hva (by decide))
    · exact .inr ⟨by omega, hv'⟩
  have hnull : translate m' cr3 0 = none := by
    have h0 := hw 0 (by omega) rfl
    rw [if_neg (by omega)] at h0
    rw [h0, h.null]
  refine ⟨fun v hv hva f hf => ?_, hnull, fun v hv hva hv0 hc => ?_,
    List.forall_mem_cons.2 ⟨fun v hv hva hlo hhi => ?_, fun r hr v hv hva hlo hhi => ?_⟩⟩
  · rcases hval v hv hva with hio | ⟨_, hsame⟩
    · exact .inr (Option.some.inj (hf.symm.trans hio))
    · exact h.leaf v hv hva f (hsame.symm.trans hf)
  · rcases hval v hv hva with hio | ⟨_, hsame⟩
    · rw [hio]
      exact Option.some_ne_none _
    · rw [hsame]
      exact h.present v hv hva hv0 hc
  · rcases hval v hv hva with hio | ⟨hout, _⟩
    · exact hio
    · dsimp only at hlo hhi
      omega
  · rcases hval v hv hva with hio | ⟨_, hsame⟩
    · exact hio
    · exact hsame.trans (h.io r hr v hv hva hlo hhi)

/-- A remapping fails only where the heap cannot provide the tables that may be missing. -/
theorem KernelInv.disableCache_ends (h : KernelInv map k)
    (hb : ∀ d ∈ map, d.Mappable → d.physicalEnd ≤ 2 ^ 47) (hr : k.IoRange vstart size) :
    Ends (disableCache k.cr3 vstart size) k.machine
      (fun _ s => KernelInv map ⟨s, k.cr3, (vstart, vstart + size) :: k.uncached⟩)
      fun e s => e = .outOfMemory ∧ tableNew s = none ∧ LacksTables k.machine := by
  obtain ⟨hne, hmod, hlt, hend⟩ := h.ioRange hb hr
  obtain ⟨ts₀, hts₀⟩ := h.tables
  obtain ⟨hboxes, htables, cs, hinv, _⟩ := hts₀.owns
  have hroom : ∃ ts, Tables (OwnsPages (freeRegions map) k.machine.heap.boxes
      (capacity layoutPage4k cs + ts₀.length)) k.cr3 ts k.machine :=
    ⟨ts₀, ⟨hboxes, htables, cs, hinv, Nat.le_refl _⟩, hts₀.pages⟩
  have hfresh := tableNew_fresh (freeRegions map) k.machine.heap.boxes
    (capacity layoutPage4k cs + ts₀.length)
  refine Ends.bind (Ends.ofExcept (checkedAdd_ok (by omega)) ?_)
  refine (identity_ends hfresh hroom vstart (vstart + size) .readWriteIo hmod hlt hend).mono
    (fun _ s hs => ?_) fun e s hf => ?_
  · obtain ⟨⟨ts, hts⟩, hw⟩ := hs
    refine ⟨⟨ts, ?_, hts.pages⟩, h.leaves.remap hne hmod hw⟩
    have howns := hts.owns.less (Nat.zero_le _)
    rw [← howns.boxes_eq] at howns
    exact howns
  · obtain ⟨rfl, hn, ts, hts⟩ := hf
    have hle := tableNew_refuses hts.owns hts.length_le hn
    rw [← htables] at hle
    exact ⟨rfl, hn, cs, hinv.list, hle⟩

theorem KernelInv.heapStep (h : KernelInv map k)
    (hs : HeapStep ⟨k.machine.toHeap, k.machine.heap.boxes⟩ ⟨⟨m, firstHeader⟩, boxes⟩) :
    KernelInv map { k with machine := ⟨m, ⟨firstHeader, boxes, k.machine.heap.tables⟩⟩ } := by
  obtain ⟨ts, hts⟩ := h.tables
  obtain ⟨cs, hinv, _⟩ := hts.owns.inv
  obtain ⟨⟨cs', hinv'⟩, hsame⟩ := HeapInv.step
    (s := ⟨k.machine.toHeap, k.machine.heap.boxes⟩) hinv hs
  obtain ⟨hpages, hwalks⟩ := hts.pages.frame fun t ht =>
    hsame (tableBlock t) (List.mem_map_of_mem ht)
  have htr : ∀ v < 2 ^ 48, translate m k.cr3 v = translate k.machine.mem k.cr3 v := by
    intro v hv
    rw [translate, translate, hwalks v hv]
  refine ⟨⟨ts, ⟨rfl, hts.owns.tables_eq, cs', hinv', Nat.zero_le _⟩, hpages⟩, ?_⟩
  refine ⟨fun v hv hva e he => h.leaves.leaf v hv hva e (htr v hv ▸ he), ?_,
    fun v hv hva hne hc => ?_, fun r hr v hv hva hlo hhi => ?_⟩
  · exact (htr 0 (by omega)).trans h.leaves.null
  · dsimp only
    rw [htr v hv]
    exact h.leaves.present v hv hva hne hc
  · exact (htr v hv).trans (h.leaves.io r hr v hv hva hlo hhi)

theorem KernelInv.step (h : KernelInv map k)
    (hb : ∀ d ∈ map, d.Mappable → d.physicalEnd ≤ 2 ^ 47) (hs : KernelStep k k') :
    KernelInv map k' := by
  cases hs with
  | heap hstep => exact h.heapStep hstep
  | disableCache hr hok => exact (h.disableCache_ends hb hr).of_ok hok

/-- The address space that the kernel relies on. -/
structure IdentityMap (map : List EfiMemoryDescriptor) (k : Kernel) : Prop where
  identity : ∀ v < 2 ^ 48, v % 4096 = 0 → ∀ e, translate k.machine.mem k.cr3 v = some e →
    e &&& complement attrMask = v ∧ e &&& PageAttr.writable ≠ 0
  null : translate k.machine.mem k.cr3 0 = none
  present : ∀ v, v % 4096 = 0 → v ≠ 0 → Covered map v → translate k.machine.mem k.cr3 v ≠ none
  boxes : ∀ b ∈ k.machine.heap.boxes, ∀ v, v % 4096 = 0 → b.ptr < v + 4096 →
    v < b.ptr + b.layout.size → translate k.machine.mem k.cr3 v ≠ none
  uncached : ∀ r ∈ k.uncached, ∀ v < 2 ^ 48, v % 4096 = 0 → r.1 < v + 4096 → v < r.2 →
    ∃ e, translate k.machine.mem k.cr3 v = some e ∧ e &&& PageAttr.writeThrough ≠ 0 ∧
      e &&& PageAttr.cacheDisable ≠ 0

theorem lor_land_ne_zero (h : a &&& b ≠ 0) (v : Nat) : (v ||| a) &&& b ≠ 0 := by
  rw [Nat.and_or_distrib_right]
  exact fun h0 => h (Nat.or_eq_zero_iff.1 h0).2

theorem KernelInv.identityMap (h : KernelInv map k)
    (hb : ∀ d ∈ map, d.Mappable → d.physicalEnd ≤ 2 ^ 47) : IdentityMap map k := by
  have hpresent : ∀ v, v % 4096 = 0 → v ≠ 0 → Covered map v →
      translate k.machine.mem k.cr3 v ≠ none := by
    intro v hva hne hc
    refine h.leaves.present v ?_ hva hne hc
    rcases hc with hc | ⟨d, hd, hm, hc⟩
    · omega
    · have hend := hb d hd hm
      omega
  refine ⟨fun v hv hva e he => ?_, h.leaves.null, hpresent, fun b hmem v hva hlo hhi => ?_,
    fun r hr v hv hva hlo hhi => ⟨_, h.leaves.io r hr v hv hva hlo hhi,
      lor_land_ne_zero (by decide) v, lor_land_ne_zero (by decide) v⟩⟩
  · have hbits : ∀ a < 4096, (v ||| a) &&& complement attrMask = v := by
      intro a ha
      have hor := lor_eq_add hva ha
      rw [land_not_attrMask (by omega)]
      omega
    rcases h.leaves.leaf v hv hva e he with rfl | rfl
    · exact ⟨hbits _ (by decide), lor_land_ne_zero (by decide) v⟩
    · exact ⟨hbits _ (by decide), lor_land_ne_zero (by decide) v⟩
  · obtain ⟨ts, hts⟩ := h.tables
    obtain ⟨cs, hinv, _⟩ := hts.owns.inv
    obtain ⟨r, hr, hrlo, hrhi⟩ := hinv.bounds (List.mem_append_left (ts.map tableBlock) hmem)
    have habove := hinv.good.above r hr
    obtain ⟨d, hd, hdr⟩ := List.mem_filterMap.1 (List.mem_reverse.1 hr)
    obtain ⟨hc, _, hend⟩ := EfiMemoryDescriptor.freeRegion_eq_some hdr
    exact hpresent v hva (by omega) (.inr ⟨d, hd, .inl hc, by omega⟩)

/-- From `init_paging` on the page table is an identity map of the memory, in every run of the
kernel. `init_paging` and `disable_cache` fail only where the allocator refuses a table, which it
does not while the heap has room for what a complete tree of tables is missing. -/
theorem kernel_identity_map (map : List EfiMemoryDescriptor)
    (hv : EfiMemoryDescriptor.ValidMap map) (hb : ∀ d ∈ map, d.Mappable → d.physicalEnd ≤ 2 ^ 47)
    (m : Mem) :
    ∃ heap, Heap.initWithMmap ⟨m, none⟩ map = .ok heap ∧ ∀ r, Runs HeapStep ⟨heap, []⟩ r →
      match initPaging map (.booted r) with
      | .error e s => e = .outOfMemory ∧ tableNew s = none ∧ LacksTables (.booted r)
      | .ok cr3 machine => ∀ k, Runs KernelStep ⟨machine, cr3, []⟩ k → IdentityMap map k ∧
        ∀ vstart size, k.IoRange vstart size →
          match disableCache k.cr3 vstart size k.machine with
          | .error e s => e = .outOfMemory ∧ tableNew s = none ∧ LacksTables k.machine
          | .ok _ machine =>
            KernelStep k ⟨machine, k.cr3, (vstart, vstart + size) :: k.uncached⟩ := by
  obtain ⟨heap, hinit, hruns⟩ := heapInv_of_runs hv m
  refine ⟨heap, hinit, fun r hrun => ?_⟩
  obtain ⟨cs, hinv⟩ := hruns r hrun
  have hends := initPaging_ends hb (OwnsPages.booted hinv)
  cases hok : initPaging map (.booted r) with
  | error e s =>
    obtain ⟨he, hn, hle⟩ := hends.of_error hok
    exact ⟨he, hn, cs, hinv.list, hle⟩
  | ok cr3 machine =>
    obtain ⟨htables, hleaves⟩ := hends.of_ok hok
    intro k hk
    have hkinv := hk.invariant (KernelInv map) (fun k k' h hs => h.step hb hs)
      (KernelInv.start htables hleaves)
    refine ⟨hkinv.identityMap hb, fun vstart size hr => ?_⟩
    have hends := hkinv.disableCache_ends hb hr
    cases hok : disableCache k.cr3 vstart size k.machine with
    | error e s => exact hends.of_error hok
    | ok u machine => exact .disableCache hr hok

def largeMap : List EfiMemoryDescriptor :=
  [⟨.loaderCode, 0, 1⟩, ⟨.conventionalMemory, 4096, 2 ^ 30⟩]

theorem largeMap_valid : EfiMemoryDescriptor.ValidMap largeMap := by
  refine ⟨by decide, by decide, ?_⟩
  simp [largeMap]

def largeHeap : Heap := ⟨Header.store (fun _ => 0) 4096 ⟨none, 2 ^ 42, false⟩, some 4096⟩

theorem largeHeap_eq : Heap.initWithMmap ⟨fun _ => 0, none⟩ largeMap = .ok largeHeap := by
  have hbytes : checkedMul (2 ^ 30) 4096 = .ok (2 ^ 42) := checkedMul_ok (by omega)
  have hadd : Heap.addFreeFromDescriptor ⟨fun _ => 0, none⟩ ⟨.conventionalMemory, 4096, 2 ^ 30⟩ =
      .ok largeHeap := by
    rw [Heap.addFreeFromDescriptor]
    dsimp only
    have hne : ¬(4096 = 0) := by decide
    rw [hbytes, ok_bind, if_neg hne, if_neg hne, if_neg (by omega)]
    rfl
  rw [Heap.initWithMmap, largeMap, List.foldlM_cons, if_pos (by decide)]
  rw [pure_bind]
  rw [List.foldlM_cons, if_neg (by decide), hadd]
  rfl

theorem largeHeap_inv :
    HeapInv (freeRegions largeMap) largeHeap [] [(4096, ⟨none, 2 ^ 42, false⟩)] := by
  have hregions : freeRegions largeMap = [(4096, 4096 + 2 ^ 42)] := by
    simp [freeRegions, largeMap, EfiMemoryDescriptor.freeRegion, EfiMemoryDescriptor.physicalEnd]
  rw [hregions]
  exact HeapInv.single (fun _ => 0) 4096 (2 ^ 42) (by omega) (by omega) (by omega) (by omega)
    (by omega)

theorem capacity_largeHeap : maxTables < capacity layoutPage4k [(4096, ⟨none, 2 ^ 42, false⟩)] := by
  have hclog : Nat.clog 2 4096 = 12 := Nat.clog_pow 2 12 (by omega)
  have hsize : blockSize layoutPage4k.size = 4096 := by
    have h4096 : layoutPage4k.size = 4096 := rfl
    rw [blockSize, h4096, hclog]
    rfl
  have halign : blockAlign layoutPage4k.align = 4096 := rfl
  simp [capacity, Header.rooms, Header.Able, Header.blockStep, Header.roomyAddr, hsize, halign,
    headerSize, maxTables]

/-- With 4 TiB of memory the page table is set up and a BAR is remapped. -/
theorem kernel_identity_map_largeMap :
    ∃ heap cr3 s t, Heap.initWithMmap ⟨fun _ => 0, none⟩ largeMap = .ok heap ∧
      initPaging largeMap (.booted ⟨heap, []⟩) = .ok cr3 s ∧
      disableCache cr3 0xfe000000 4096 s = .ok () t ∧
      IdentityMap largeMap ⟨t, cr3, [(0xfe000000, 0xfe001000)]⟩ := by
  have hb : ∀ d ∈ largeMap, d.Mappable → d.physicalEnd ≤ 2 ^ 47 := by decide
  obtain ⟨heap, hinit, h⟩ := kernel_identity_map largeMap largeMap_valid hb fun _ => 0
  have hheap : largeHeap = heap := Except.ok.inj (largeHeap_eq.symm.trans hinit)
  have hinv := largeHeap_inv
  rw [hheap] at hinv
  have hpaging := h ⟨heap, []⟩ .refl
  have hends := initPaging_ends hb (OwnsPages.booted (r := ⟨heap, []⟩) hinv)
  have hroom := Nat.not_le_of_lt capacity_largeHeap
  cases hok : initPaging largeMap (.booted ⟨heap, []⟩) with
  | error e s => exact absurd (hends.of_error hok).2.2 hroom
  | ok cr3 s =>
    rw [hok] at hpaging
    obtain ⟨⟨ts, hts⟩, _⟩ := hends.of_ok hok
    have hbar := (hpaging ⟨s, cr3, []⟩ .refl).2 0xfe000000 4096
      (.bar (by decide) (by decide) (by decide))
    cases hcache : disableCache cr3 0xfe000000 4096 s with
    | error e t =>
      rw [hcache] at hbar
      obtain ⟨_, _, cs, hlist, hle⟩ := hbar
      obtain ⟨_, htables, ds, hinv, hle'⟩ := hts.owns
      obtain rfl := hlist.unique hinv.list
      rw [htables] at hle
      exact absurd (hle'.trans hle) hroom
    | ok u t =>
      rw [hcache] at hbar
      exact ⟨heap, cr3, s, t, hinit, hok, hcache, (hpaging _ (.single hbar)).1⟩

end Wasabi
