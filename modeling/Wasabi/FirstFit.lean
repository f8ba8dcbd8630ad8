import Wasabi.Header
import Wasabi.Uefi

namespace Wasabi
set_option autoImplicit true

/-- Physical memory together with the head of the header list of `FirstFitAllocator`. -/
structure Heap where
  mem : Mem
  firstHeader : Option Nat

def headerLimit : Nat := 2 ^ 59

/-- The search of `alloc_with_options`, from the header that `header` points to. -/
def allocLoop : Nat → Mem → Option Nat → Nat → Nat → Except Fault (Nat × Mem)
  | _, m, none, _, _ => return (0, m)
  | 0, _, some _, _, _ => throw .diverged
  | fuel + 1, m, some e, size, align => do
    match ← Header.provide m e size align with
    | (some p, m) => return (p, m)
    | (none, m) => allocLoop fuel m (Header.load m e).nextHeader size align

namespace Heap

def allocWithOptions (heap : Heap) (layout : Layout) : Except Fault (Nat × Heap) := do
  let (ptr, m) ← allocLoop headerLimit heap.mem heap.firstHeader layout.size layout.align
  return (ptr, { heap with mem := m })

def dealloc (heap : Heap) (ptr : Nat) : Except Fault Heap := do
  let region ← checkedSub ptr headerSize
  return { heap with
    mem := Header.store heap.mem region { Header.load heap.mem region with isAllocated := false } }

def addFreeFromDescriptor (heap : Heap) (desc : EfiMemoryDescriptor) : Except Fault Heap := do
  let bytes ← checkedMul desc.numberOfPages 4096
  let startAddr := if desc.physicalStart = 0 then 4096 else desc.physicalStart
  let size := if desc.physicalStart = 0 then bytes - 4096 else bytes
  if size ≤ 4096 then
    return heap
  return ⟨Header.store heap.mem startAddr ⟨heap.firstHeader, size, false⟩, some startAddr⟩

def initWithMmap (heap : Heap) (map : List EfiMemoryDescriptor) : Except Fault Heap :=
  map.foldlM (fun heap desc =>
    if desc.memoryType ≠ .conventionalMemory then return heap
    else heap.addFreeFromDescriptor desc) heap

end Heap

def Links : Option Nat → Option Nat → List (Nat × Header) → Prop
  | s, t, [] => s = t
  | s, t, c :: cs => s = some c.1 ∧ Links c.2.nextHeader t cs

/-- The headers found in memory along the list, with their addresses. -/
structure HeaderList (heap : Heap) (cs : List (Nat × Header)) : Prop where
  links : Links heap.firstHeader none cs
  stored : ∀ c ∈ cs, Header.load heap.mem c.1 = c.2

theorem HeaderList.unique (h : HeaderList heap cs) (h' : HeaderList heap ds) : cs = ds := by
  obtain ⟨hlinks, hstored⟩ := h
  obtain ⟨hlinks', hstored'⟩ := h'
  generalize heap.firstHeader = s at hlinks hlinks'
  induction cs generalizing s ds with
  | nil =>
    cases ds with
    | nil => rfl
    | cons d ds => exact nomatch hlinks.symm.trans hlinks'.1
  | cons c cs ih =>
    cases ds with
    | nil => exact nomatch hlinks.1.symm.trans hlinks'
    | cons d ds =>
      have haddr := Option.some.inj (hlinks.1.symm.trans hlinks'.1)
      have hhead : c = d := by
        refine Prod.ext haddr ?_
        rw [← hstored c List.mem_cons_self, ← hstored' d List.mem_cons_self, haddr]
      subst hhead
      rw [ih (fun e he => hstored e (List.mem_cons_of_mem _ he))
        (fun e he => hstored' e (List.mem_cons_of_mem _ he)) _ hlinks.2 hlinks'.2]

theorem links_append : Links s t (xs ++ ys) ↔ ∃ u, Links s u xs ∧ Links u t ys := by
  induction xs generalizing s with
  | nil => simp [Links]
  | cons c xs ih =>
    simp only [List.cons_append, Links, ih]
    exact ⟨fun ⟨hs, u, h, h'⟩ => ⟨u, ⟨hs, h⟩, h'⟩, fun ⟨u, ⟨hs, h⟩, h'⟩ => ⟨hs, u, h, h'⟩⟩

theorem Links.replace (h : Links s t (pre ++ c :: post))
    (hm : Links (some c.1) c.2.nextHeader mid) : Links s t (pre ++ (mid ++ post)) := by
  obtain ⟨u, hpre, hu, hpost⟩ := links_append.1 h
  subst hu
  exact links_append.2 ⟨_, hpre, links_append.2 ⟨_, hm, hpost⟩⟩

def storeAll (m : Mem) (cs : List (Nat × Header)) : Mem :=
  cs.foldr (fun c m => Header.store m c.1 c.2) m

theorem storeAll_same_on (h : ∀ c ∈ cs, Apart c.1 headerSize a n) :
    SameOn m (storeAll m cs) a n := by
  induction cs with
  | nil => exact .refl _ _ _
  | cons c cs ih =>
    exact (ih fun d hd => h d (List.mem_cons_of_mem _ hd)).trans
      (Header.store_same_on (h c List.mem_cons_self))

theorem load_storeAll (hf : ∀ c ∈ cs, c.2.Fits)
    (hd : cs.Pairwise fun c d => Apart c.1 headerSize d.1 headerSize) (hc : c ∈ cs) :
    Header.load (storeAll m cs) c.1 = c.2 := by
  induction cs with
  | nil => cases hc
  | cons d cs ih =>
    obtain ⟨hdc, hds⟩ := List.pairwise_cons.1 hd
    cases hc with
    | head => exact Header.load_store (hf _ List.mem_cons_self)
    | tail _ hc =>
      have hrest := ih (fun e he => hf e (List.mem_cons_of_mem _ he)) hds hc
      exact (Header.load_store_ne (hdc c hc)).trans hrest

/-- First fit: the search stops at the first header that is able to provide. -/
theorem allocLoop_eq (l : Layout) (hl : 0 < l.size) (hlinks : Links s none cs)
    (hstored : ∀ c ∈ cs, Header.load m c.1 = c.2) (hend : ∀ c ∈ cs, c.1 + c.2.size < 2 ^ 64)
    (hfuel : cs.length ≤ fuel) :
    allocLoop fuel m s l.size l.align = .ok (
      match cs.find? fun c => c.2.Able l with
      | none => (0, m)
      | some c => (Header.carveAddr l c.1 c.2, storeAll m (Header.carved l c.1 c.2))) := by
  induction cs generalizing s fuel with
  | nil =>
    cases hlinks
    cases fuel <;> rfl
  | cons c cs ih =>
    obtain ⟨rfl, hlinks⟩ := hlinks
    obtain ⟨fuel, rfl⟩ : ∃ n, fuel = n + 1 := ⟨fuel - 1, by simp at hfuel; omega⟩
    have hc := hstored c List.mem_cons_self
    rw [allocLoop, Header.provide_eq l hl, hc]
    by_cases ha : c.2.Able l
    · rw [if_pos ha, Header.carve_eq l hl hc ha (hend c List.mem_cons_self),
        List.find?_cons_of_pos (by simpa)]
      rfl
    · rw [if_neg ha, ok_bind, List.find?_cons_of_neg (by simpa)]
      simp only [hc]
      exact ih hlinks (fun d hd => hstored d (List.mem_cons_of_mem _ hd))
        (fun d hd => hend d (List.mem_cons_of_mem _ hd)) (by simp at hfuel; omega)

end Wasabi
