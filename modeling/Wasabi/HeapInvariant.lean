import Wasabi.FirstFit
import Mathlib.Data.List.Perm.Subperm
import Mathlib.Tactic.Tauto

namespace Wasabi
set_option autoImplicit true

namespace Header

theorem blockAlign_pos (align : Nat) : 32 ≤ blockAlign align := Nat.le_max_right _ _

theorem carveAddr_bounds (l : Layout) (self : Nat) (ha : Able l h) :
    self + 64 < carveAddr l self h ∧ carveAddr l self h + blockSize l.size ≤ self + h.size := by
  have hle := carveAddr_le l self h
  have hlt := lt_carveAddr l self h
  have hs := ha.2
  have hp := blockAlign_pos l.align
  omega

theorem carveAddr_dvd (l : Layout) (self : Nat) (h : Header) :
    2 ^ 5 ∣ carveAddr l self h ∧ l.align ∣ carveAddr l self h := by
  obtain ⟨j, hj, _, he⟩ := blockAlign_pow l.align_pow l.align_bound
  obtain ⟨k, hk⟩ := l.align_pow
  have hkj : k ≤ j := by
    have hle : l.align ≤ blockAlign l.align := Nat.le_max_left _ _
    rw [he, hk] at hle
    exact (Nat.pow_le_pow_iff_right (by omega)).1 hle
  have hd : 2 ^ j ∣ carveAddr l self h := by
    rw [carveAddr, he]
    exact Nat.dvd_mul_left _ _
  exact ⟨(Nat.pow_dvd_pow 2 hj).trans hd, hk ▸ (Nat.pow_dvd_pow 2 hkj).trans hd⟩

theorem carveAddr_mod (l : Layout) (self : Nat) (h : Header) : carveAddr l self h % 32 = 0 :=
  Nat.mod_eq_zero_of_dvd (carveAddr_dvd l self h).1

/-- Carving replaces a header by headers that fill the same interval. -/
theorem carved_tiles (l : Layout) (self : Nat) (ha : Able l h) :
    Tiles Prod.fst (fun c => c.2.size) self (self + h.size) (carved l self h) := by
  have hb := carveAddr_bounds l self ha
  unfold carved headerSize
  dsimp only
  split <;> simp only [Tiles, true_and] <;> omega

theorem carved_links (l : Layout) (self : Nat) (h : Header) :
    Links (some self) h.nextHeader (carved l self h) := by
  unfold carved
  dsimp only
  split <;> simp [Links]

structure Shaped (c : Nat × Header) : Prop where
  addr_mod : c.1 % 32 = 0
  size_mod : c.2.size % 32 = 0
  size_le : 32 ≤ c.2.size

theorem carved_shaped (l : Layout) (hs : Shaped (self, h)) (ha : Able l h)
    (hc : c ∈ carved l self h) : Shaped c := by
  have hb := carveAddr_bounds l self ha
  have hm := carveAddr_mod l self h
  have hr := blockSize_mod l.size
  have hself : self % 32 = 0 := hs.addr_mod
  have hsize : h.size % 32 = 0 := hs.size_mod
  unfold carved headerSize at hc
  dsimp only at hc
  split at hc <;> simp only [List.mem_cons, List.not_mem_nil, or_false] at hc
  · rcases hc with rfl | rfl <;> constructor <;> dsimp only <;> omega
  · rcases hc with rfl | rfl | rfl <;> constructor <;> dsimp only <;> omega

theorem carved_fits (l : Layout) (ha : Able l h) (hf : h.Fits) (hend : self + h.size < 2 ^ 64)
    (hc : c ∈ carved l self h) : c.2.Fits := by
  have hb := carveAddr_bounds l self ha
  unfold carved headerSize at hc
  dsimp only at hc
  split at hc <;> simp only [List.mem_cons, List.not_mem_nil, or_false] at hc
  · rcases hc with rfl | rfl <;> constructor <;> dsimp only
    · omega
    · intro n hn; cases hn; omega
    · omega
    · exact hf.next_lt
  · rcases hc with rfl | rfl | rfl <;> constructor <;> dsimp only
    · omega
    · intro n hn; cases hn; omega
    · omega
    · intro n hn; cases hn; omega
    · omega
    · exact hf.next_lt

end Header

open Header

theorem Apart.heads (h : Apart a m b n) (hm : 32 ≤ m) (hn : 32 ≤ n) :
    Apart a headerSize b headerSize := by
  unfold Apart headerSize at *
  omega

theorem Tiles.load_storeAll (h : Tiles Prod.fst (fun c : Nat × Header => c.2.size) lo hi cs)
    (hs : ∀ c ∈ cs, Shaped c) (hf : ∀ c ∈ cs, c.2.Fits) (hc : c ∈ cs) :
    load (storeAll m cs) c.1 = c.2 := by
  apply Wasabi.load_storeAll hf (h.pairwise.imp_of_mem ?_) hc
  intro x y hx hy ha
  exact ha.heads (hs x hx).size_le (hs y hy).size_le

/-- Regions a heap can be built on: apart from each other, above page 0 and below the end of the
address space. -/
structure GoodRegions (regions : List (Nat × Nat)) : Prop where
  above : ∀ r ∈ regions, 4096 ≤ r.1
  below : ∀ r ∈ regions, r.2 < 2 ^ 64
  apart : regions.Pairwise fun r s => r.2 ≤ s.1 ∨ s.2 ≤ r.1

/-- The header list `cs` of a heap fills its regions exactly. -/
structure Formatted (regions : List (Nat × Nat)) (heap : Heap) (cs : List (Nat × Header)) :
    Prop where
  good : GoodRegions regions
  list : HeaderList heap cs
  tiled : Covers Prod.fst (fun c => c.2.size) regions cs
  shaped : ∀ c ∈ cs, Shaped c

namespace Formatted

theorem bounds (h : Formatted regions heap cs) (hc : c ∈ cs) :
    4096 ≤ c.1 ∧ c.1 + c.2.size < 2 ^ 64 := by
  obtain ⟨r, hr, hlo, hhi⟩ := h.tiled.mem_bounds hc
  have ha := h.good.above r hr
  have hb := h.good.below r hr
  constructor <;> omega

theorem fits (h : Formatted regions heap cs) (hc : c ∈ cs) : c.2.Fits :=
  h.list.stored c hc ▸ load_fits _ _

theorem pairwise (h : Formatted regions heap cs) :
    cs.Pairwise fun c d => Apart c.1 c.2.size d.1 d.2.size :=
  h.tiled.pairwise h.good.apart

theorem apart_of_ne (h : Formatted regions heap cs) (hc : c ∈ cs) (hd : d ∈ cs) (hne : c ≠ d) :
    Apart c.1 c.2.size d.1 d.2.size := by
  have hs : Std.Symm fun c d : Nat × Header => Apart c.1 c.2.size d.1 d.2.size :=
    ⟨fun _ _ h => h.symm⟩
  exact h.pairwise.forall hc hd hne

theorem apart_split (h : Formatted regions heap (pre ++ c :: post)) (hd : d ∈ pre ++ post) :
    Apart c.1 c.2.size d.1 d.2.size := by
  obtain ⟨hpre, hcs, hx⟩ := List.pairwise_append.1 h.pairwise
  rcases List.mem_append.1 hd with hd | hd
  · exact (hx d hd c List.mem_cons_self).symm
  · exact (List.pairwise_cons.1 hcs).1 d hd

theorem headers_apart (h : Formatted regions heap cs) :
    cs.Pairwise fun c d => Apart c.1 headerSize d.1 headerSize := by
  apply h.pairwise.imp_of_mem
  intro c d hc hd ha
  exact ha.heads (h.shaped c hc).size_le (h.shaped d hd).size_le

theorem frame (h : Formatted regions heap cs) (hm : ∀ c ∈ cs, SameOn heap.mem m c.1 headerSize) :
    Formatted regions { heap with mem := m } cs :=
  ⟨h.good, ⟨h.list.links, fun c hc => (load_congr (hm c hc)).trans (h.list.stored c hc)⟩,
    h.tiled, h.shaped⟩

theorem replace (h : Formatted regions heap (pre ++ c :: post))
    (ht : Tiles Prod.fst (fun c => c.2.size) c.1 (c.1 + c.2.size) mid)
    (hl : Links (some c.1) c.2.nextHeader mid) (hs : ∀ d ∈ mid, Shaped d)
    (hf : ∀ d ∈ mid, d.2.Fits) :
    Formatted regions { heap with mem := storeAll heap.mem mid } (pre ++ (mid ++ post)) := by
  have hmem : ∀ d, d ∈ pre ++ (mid ++ post) ↔ d ∈ mid ∨ d ∈ pre ++ post := by
    intro d
    simp only [List.mem_append]
    tauto
  have hold : ∀ d ∈ pre ++ post, d ∈ pre ++ c :: post := by
    intro d hd
    simp only [List.mem_append, List.mem_cons] at hd ⊢
    tauto
  refine ⟨h.good, ⟨h.list.links.replace hl, fun d hd => ?_⟩, h.tiled.replace ht, fun d hd => ?_⟩
  · rcases (hmem d).1 hd with hd | hd
    · exact ht.load_storeAll hs hf hd
    · refine (load_congr (storeAll_same_on fun e he => ?_)).trans (h.list.stored d (hold d hd))
      have hb := ht.mem_bounds he
      have hse := (hs e he).size_le
      have hsd := (h.shaped d (hold d hd)).size_le
      exact (h.apart_split hd).mono hb.1 (by unfold headerSize; omega) (Nat.le_refl _)
        (by unfold headerSize; omega)
  · rcases (hmem d).1 hd with hd | hd
    · exact hs d hd
    · exact h.shaped d (hold d hd)

theorem length_le (h : Formatted regions heap cs) : cs.length ≤ headerLimit := by
  have hnodup : (cs.map fun c => c.1 / 32).Nodup := by
    refine List.pairwise_map.2 (h.headers_apart.imp_of_mem fun {c d} hc hd ha => ?_)
    have hmc := (h.shaped c hc).addr_mod
    have hmd := (h.shaped d hd).addr_mod
    unfold Apart headerSize at ha
    omega
  have hsub : (cs.map fun c => c.1 / 32) ⊆ List.range headerLimit := by
    intro x hx
    obtain ⟨c, hc, rfl⟩ := List.mem_map.1 hx
    have hb := h.bounds hc
    exact List.mem_range.2 (by unfold headerLimit; omega)
  have hle := (List.subperm_of_subset hnodup hsub).length_le
  rwa [List.length_map, List.length_range] at hle

end Formatted

end Wasabi
