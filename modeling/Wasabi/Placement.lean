import Wasabi.HeapRuns

namespace Wasabi
set_option autoImplicit true

open Header

namespace Layout

def fromSizeAlign (size align : Nat) : Option Layout :=
  if h : align = 2 ^ Nat.log2 align ∧ size + align ≤ 2 ^ 63 then
    some ⟨size, align, ⟨_, h.1⟩, h.2⟩
  else none

theorem fromSizeAlign_pow (size k : Nat) (h : size + 2 ^ k ≤ 2 ^ 63) :
    ∃ l, fromSizeAlign size (2 ^ k) = some l ∧ l.size = size ∧ l.align = 2 ^ k :=
  ⟨_, dif_pos ⟨by rw [Nat.log2_two_pow], h⟩, rfl, rfl⟩

/-- The size that `can_provide` demands of a free header. -/
def needed (l : Layout) : Nat := blockSize l.size + 64 + blockAlign l.align

end Layout

def firstFit (l : Layout) (cs : List (Nat × Header)) : Option (Nat × Header) :=
  cs.find? fun c => c.2.Able l

/-- The header list after first fit has served the layout. -/
def serve (l : Layout) : List (Nat × Header) → List (Nat × Header)
  | [] => []
  | c :: cs => if c.2.Able l then carved l c.1 c.2 ++ cs else c :: serve l cs

def serveAddr (l : Layout) (cs : List (Nat × Header)) : Nat :=
  match firstFit l cs with
  | none => 0
  | some c => carveAddr l c.1 c.2

/-- A layout that does not exist is never asked for. -/
def serveArray (size align : Nat) (cs : List (Nat × Header)) : List (Nat × Header) :=
  match Layout.fromSizeAlign size align with
  | none => cs
  | some l => serve l cs

theorem serveArray_eq {size : Nat} (hl : Layout.fromSizeAlign size align = some l) :
    serveArray size align cs = serve l cs := by
  rw [serveArray, hl]

/-- First fit finds room for the layout in a header whose end lies the size of the block above a
multiple of `a`. -/
def EndsAbove (a : Nat) (l : Layout) (cs : List (Nat × Header)) : Prop :=
  ∃ c ∈ firstFit l cs, a ∣ c.1 + c.2.size - blockSize l.size

def release (ptr : Nat) (cs : List (Nat × Header)) : List (Nat × Header) :=
  cs.map fun c => if c.1 + headerSize = ptr then (c.1, { c.2 with isAllocated := false }) else c

section
variable {l : Layout} {c : Nat × Header} {pre post : List (Nat × Header)}

theorem firstFit_append (hpre : ∀ d ∈ pre, ¬d.2.Able l) (ha : c.2.Able l) :
    firstFit l (pre ++ c :: post) = some c := by
  refine List.find?_eq_some_iff_append.2 ⟨by simpa using ha, pre, post, rfl, ?_⟩
  exact fun d hd => by simpa using hpre d hd

theorem serve_append (hpre : ∀ d ∈ pre, ¬d.2.Able l) (ha : c.2.Able l) :
    serve l (pre ++ c :: post) = pre ++ (carved l c.1 c.2 ++ post) := by
  induction pre with
  | nil => exact if_pos ha
  | cons d pre ih =>
    obtain ⟨hd, hpre⟩ := List.forall_mem_cons.1 hpre
    rw [List.cons_append, serve, if_neg hd, ih hpre, List.cons_append]

theorem release_append (hne : ∀ d ∈ pre ++ post, d.1 ≠ c.1) (hptr : ptr = c.1 + headerSize) :
    release ptr (pre ++ c :: post) = pre ++ (c.1, { c.2 with isAllocated := false }) :: post := by
  subst hptr
  have hkeep : ∀ ds, ds ⊆ pre ++ post → release (c.1 + headerSize) ds = ds := by
    intro ds hds
    have hid : ds.map (fun d => d) = ds := List.map_id ds
    refine Eq.trans (List.map_congr_left fun d hd => ?_) hid
    exact if_neg fun he => hne d (hds hd) (Nat.add_right_cancel he)
  have hhead : release (c.1 + headerSize) (c :: post) =
      (c.1, { c.2 with isAllocated := false }) :: release (c.1 + headerSize) post := by
    rw [release, List.map_cons, if_pos rfl]
    rfl
  have happend : release (c.1 + headerSize) (pre ++ c :: post) =
      release (c.1 + headerSize) pre ++ release (c.1 + headerSize) (c :: post) := List.map_append
  rw [happend, hhead, hkeep pre (List.subset_append_left _ _),
    hkeep post (List.subset_append_right _ _)]

end

/-- Without an alignment of more than a header the object ends where the free header ended. -/
theorem carveAddr_eq_end (hs : Shaped c) (ha : l.align ≤ headerSize) :
    carveAddr l c.1 c.2 = c.1 + c.2.size - blockSize l.size := by
  have halign : blockAlign l.align = 32 := Nat.max_eq_right ha
  have haddr := hs.addr_mod
  have hsize := hs.size_mod
  have hblock := blockSize_mod l.size
  rw [carveAddr, halign]
  omega

namespace HeapInv

/-- A request is refused when no header has room, and else served by first fit. -/
theorem alloc_served (h : HeapInv regions heap live cs) (hl : 0 < l.size) :
    (heap.allocWithOptions l = .ok (0, heap) ∧ ∀ c ∈ cs, ¬c.2.Able l) ∨
    ∃ c heap', firstFit l cs = some c ∧ c.2.Able l ∧ Shaped c ∧ carveAddr l c.1 c.2 ≠ 0 ∧
      heap.allocWithOptions l = .ok (carveAddr l c.1 c.2, heap') ∧
      HeapInv regions heap' (⟨carveAddr l c.1 c.2, l⟩ :: live) (serve l cs) ∧
      ∀ b ∈ live, SameOn heap.mem heap'.mem b.ptr b.layout.size := by
  rcases h.alloc_cases l with ⟨hnull, hz | hnone⟩ | ⟨pre, c, post, rfl, _, hpre, ha, hok⟩
  · omega
  · exact .inl ⟨hnull, hnone⟩
  · have hb := carveAddr_bounds l c.1 ha
    refine .inr ⟨c, _, firstFit_append hpre ha, ha, h.shaped c (by simp), by omega, hok, ?_,
      fun b hb => h.carve_same_on ha hb⟩
    rw [serve_append hpre ha]
    exact h.carve hl ha

theorem dealloc_released (h : HeapInv regions heap live cs) (hb : b ∈ live) :
    ∃ heap', heap.dealloc b.ptr = .ok heap' ∧
      HeapInv regions heap' (live.filter (·.ptr ≠ b.ptr)) (release b.ptr cs) ∧
      ∀ a ∈ live, SameOn heap.mem heap'.mem a.ptr a.layout.size := by
  obtain ⟨pre, c, post, rfl, hheld, hok, hinv⟩ := h.free hb
  have hne : ∀ d ∈ pre ++ post, d.1 ≠ c.1 := by
    intro d hd he
    have hapart := h.toFormatted.apart_split hd
    have hsize := hheld.bytes_le
    have hs := (h.shaped d (by simp at hd ⊢; tauto)).size_le
    unfold Apart headerSize at *
    omega
  refine ⟨_, hok, ?_, fun a ha => h.free_same_on (by simp) ha⟩
  rwa [release_append hne hheld.ptr_eq]

end HeapInv

end Wasabi
