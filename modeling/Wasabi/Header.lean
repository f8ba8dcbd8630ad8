import Wasabi.Bytes
import Wasabi.Tiling
import Wasabi.Usize
import Mathlib.Data.Nat.Log

namespace Wasabi
set_option autoImplicit true

def roundUpToNearestPow2 (v : Nat) : Except String Nat :=
  let shift := 64 - leadingZeros (if v = 0 then 2 ^ 64 - 1 else v - 1)
  if shift < 64 then .ok (1 <<< shift) else .error "Out of range"

theorem roundUpToNearestPow2_zero : roundUpToNearestPow2 0 = .error "Out of range" := by
  decide

theorem roundUpToNearestPow2_eq (h : 0 < v) (hv : v ≤ 2 ^ 63) :
    roundUpToNearestPow2 v = .ok (2 ^ Nat.clog 2 v) := by
  by_cases h1 : v = 1
  · subst h1
    decide
  · have hw : v - 1 ≠ 0 := by omega
    have hlog : Nat.clog 2 v = (v - 1).log2 + 1 := by
      have hle := Nat.log2_self_le hw
      have hlt := Nat.lt_log2_self (n := v - 1)
      apply Nat.le_antisymm
      · exact (Nat.clog_le_iff_le_pow (by omega)).2 (by omega)
      · exact (Nat.lt_clog_iff_pow_lt (by omega)).2 (by omega)
    have hbits : (v - 1).log2 < 63 := (Nat.log2_lt hw).2 (by omega)
    have hshift : 64 - leadingZeros (v - 1) = Nat.clog 2 v := by
      rw [leadingZeros, if_neg hw, hlog]
      omega
    have hlt : (v - 1).log2 + 1 < 64 := by omega
    simp only [roundUpToNearestPow2, if_neg (Nat.pos_iff_ne_zero.1 h), hshift, hlog, if_pos hlt,
      Nat.one_shiftLeft]

/-- A size and a power-of-two alignment; the size rounded up to the alignment fits in `isize`. -/
structure Layout where
  size : Nat
  align : Nat
  align_pow : ∃ k, align = 2 ^ k
  size_le : size + align ≤ 2 ^ 63

def layoutPage4k : Layout := ⟨4096, 4096, ⟨12, rfl⟩, by decide⟩

theorem layoutPage4k_pos : 0 < layoutPage4k.size := by decide

def headerSize : Nat := 32

/-- The number of bytes set aside for a request, without its header. -/
def blockSize (size : Nat) : Nat := max (2 ^ Nat.clog 2 size) headerSize

def blockAlign (align : Nat) : Nat := max align headerSize

theorem le_blockSize (size : Nat) : size ≤ blockSize size :=
  (Nat.le_pow_clog (by omega) size).trans (Nat.le_max_left _ _)

theorem max_pow_headerSize (k : Nat) :
    ∃ j, max (2 ^ k) headerSize = 2 ^ j ∧ 5 ≤ j ∧ j ≤ max k 5 := by
  by_cases hk : 5 ≤ k
  · refine ⟨k, Nat.max_eq_left ?_, hk, Nat.le_max_left _ _⟩
    exact Nat.pow_le_pow_right (n := 2) (i := 5) (by omega) hk
  · refine ⟨5, Nat.max_eq_right ?_, Nat.le_refl _, Nat.le_max_right _ _⟩
    exact Nat.pow_le_pow_right (n := 2) (j := 5) (by omega) (by omega)

theorem blockSize_pow (size : Nat) : ∃ j, blockSize size = 2 ^ j ∧ 5 ≤ j := by
  obtain ⟨j, he, hj, _⟩ := max_pow_headerSize (Nat.clog 2 size)
  exact ⟨j, he, hj⟩

theorem blockSize_mod (size : Nat) : blockSize size % 32 = 0 := by
  obtain ⟨j, he, hj⟩ := blockSize_pow size
  rw [he]
  exact Nat.mod_eq_zero_of_dvd (Nat.pow_dvd_pow 2 hj)

theorem headerSize_le_blockSize (size : Nat) : 32 ≤ blockSize size := Nat.le_max_right _ _

theorem blockSize_le (h : size ≤ 2 ^ 63) : blockSize size ≤ 2 ^ 63 := by
  apply Nat.max_le.2 ⟨?_, by decide⟩
  exact Nat.pow_le_pow_right (by omega) ((Nat.clog_le_iff_le_pow (by omega)).2 h)

theorem blockAlign_pow (h : ∃ k, align = 2 ^ k) (hle : align ≤ 2 ^ 63) :
    ∃ j, 5 ≤ j ∧ j ≤ 63 ∧ blockAlign align = 2 ^ j := by
  obtain ⟨k, rfl⟩ := h
  have hk : k ≤ 63 := (Nat.pow_le_pow_iff_right (a := 2) (by omega)).1 hle
  obtain ⟨j, he, hj, hjk⟩ := max_pow_headerSize k
  exact ⟨j, hj, by omega, he⟩

structure Header where
  nextHeader : Option Nat
  size : Nat
  isAllocated : Bool
  deriving DecidableEq, Repr

namespace Header

/-- The header stored at `a`. The fields stand in the order of the source; a null link is `None`. -/
def load (m : Mem) (a : Nat) : Header where
  nextHeader := if readLe m a 8 = 0 then none else some (readLe m a 8)
  size := readLe m (a + 8) 8
  isAllocated := readLe m (a + 16) 1 != 0

def store (m : Mem) (a : Nat) (h : Header) : Mem :=
  writeLe (writeLe (writeLe (writeLe m a 8 (h.nextHeader.getD 0)) (a + 8) 8 h.size)
    (a + 16) 8 h.isAllocated.toNat) (a + 24) 8 0

structure Fits (h : Header) : Prop where
  size_lt : h.size < 2 ^ 64
  next_lt : ∀ n, h.nextHeader = some n → 0 < n ∧ n < 2 ^ 64

theorem load_fits (m : Mem) (a : Nat) : (load m a).Fits := by
  constructor
  · exact lt_of_lt_of_eq (readLe_lt m (a + 8) 8) (by norm_num)
  · intro n hn
    simp only [load] at hn
    split at hn
    · cases hn
    · cases hn
      exact ⟨by omega, lt_of_lt_of_eq (readLe_lt m a 8) (by norm_num)⟩

theorem load_congr (h : SameOn m m' a headerSize) : load m' a = load m a := by
  have hm (i n : Nat) (hi : i + n ≤ 32) : SameOn m m' (a + i) n :=
    h.mono (by omega) (by unfold headerSize; omega)
  have hn : readLe m' a 8 = readLe m a 8 := readLe_congr (hm 0 8 (by omega))
  simp only [load, hn, readLe_congr (hm 8 8 (by omega)), readLe_congr (hm 16 1 (by omega))]

theorem store_same_on (h : Apart a headerSize b n) : SameOn m (store m a hdr) b n := by
  intro x hl hu
  unfold Apart headerSize at h
  simp only [store, writeLe]
  rw [if_neg (by omega), if_neg (by omega), if_neg (by omega), if_neg (by omega)]

theorem load_store (hf : h.Fits) : load (store m a h) a = h := by
  obtain ⟨next, size, isAllocated⟩ := h
  have hs : size < 256 ^ 8 := lt_of_lt_of_eq hf.size_lt (by norm_num)
  have hn : next.getD 0 < 256 ^ 8 := by
    cases next with
    | none => exact Nat.pow_pos (by omega)
    | some n => exact lt_of_lt_of_eq (hf.next_lt n rfl).2 (by norm_num)
  have hb (m' : Mem) :
      readLe (writeLe m' (a + 16) 8 isAllocated.toNat) (a + 16) 1 = isAllocated.toNat := by
    have hr := readLe_writeLe_from m' (a + 16) 8 isAllocated.toNat 1 0 (by omega)
    rw [Nat.add_zero] at hr
    rw [hr]
    cases isAllocated <;> rfl
  have hnext : readLe (store m a ⟨next, size, isAllocated⟩) a 8 = next.getD 0 := by
    simp only [store]
    rw [readLe_writeLe_ne (by omega), readLe_writeLe_ne (by omega), readLe_writeLe_ne (by omega),
      readLe_writeLe_of_lt hn]
  have hsize : readLe (store m a ⟨next, size, isAllocated⟩) (a + 8) 8 = size := by
    simp only [store]
    rw [readLe_writeLe_ne (by omega), readLe_writeLe_ne (by omega),
      readLe_writeLe_of_lt hs]
  have hflag : readLe (store m a ⟨next, size, isAllocated⟩) (a + 16) 1 = isAllocated.toNat := by
    simp only [store]
    rw [readLe_writeLe_ne (by omega), hb _]
  have hlink : (if next.getD 0 = 0 then none else some (next.getD 0)) = next := by
    cases next with
    | none => rfl
    | some n => exact if_neg (Nat.pos_iff_ne_zero.1 (hf.next_lt n rfl).1)
  have hbool : (isAllocated.toNat != 0) = isAllocated := by cases isAllocated <;> rfl
  simp only [load, hnext, hsize, hflag, hlink, hbool]

theorem load_store_ne (h : Apart a headerSize b headerSize) :
    load (store m a hdr) b = load m b :=
  load_congr (store_same_on h)

def canProvide (h : Header) (size align : Nat) : Except Fault Bool := do
  let needed ← checkedAdd (← checkedAdd size (headerSize * 2)) align
  return decide (needed ≤ h.size)

def endAddr (h : Header) (self : Nat) : Except Fault Nat := checkedAdd self h.size

def padAfter (m : Mem) (endAddr allocatedEnd : Nat) (allocated : Header) :
    Except Fault (Nat × Header × Mem) :=
  if allocatedEnd ≠ endAddr then do
    let padding : Header := ⟨allocated.nextHeader, ← checkedSub endAddr allocatedEnd, false⟩
    let sizeUsed ← checkedAdd allocated.size padding.size
    return (sizeUsed, { allocated with nextHeader := some allocatedEnd },
      store m allocatedEnd padding)
  else return (allocated.size, allocated, m)

/-- Carve an object from the end of the region of the header at `self`. Each boxed header is
written back once, with the values its fields have at the end of the call. -/
def carve (m : Mem) (self size align : Nat) : Except Fault (Nat × Mem) := do
  let header := load m self
  let endAddr ← header.endAddr self
  let allocatedAddr := (← checkedSub endAddr size) &&& complement (align - 1)
  let forAllocated ← checkedSub allocatedAddr headerSize
  let allocated : Header := ⟨header.nextHeader, ← checkedAdd size headerSize, true⟩
  let allocatedEnd ← allocated.endAddr forAllocated
  let (sizeUsed, allocated, m) ← padAfter m endAddr allocatedEnd allocated
  let m := store m forAllocated allocated
  if header.size < (← checkedAdd sizeUsed headerSize) then
    throw .assertion
  let shrunk := { header with nextHeader := some forAllocated, size := header.size - sizeUsed }
  return (allocatedAddr, store m self shrunk)

def provide (m : Mem) (self size align : Nat) : Except Fault (Option Nat × Mem) :=
  match roundUpToNearestPow2 size with
  | .error _ => return (none, m)
  | .ok rounded => do
    let size := max rounded headerSize
    let align := max align headerSize
    if (load m self).isAllocated then
      return (none, m)
    if !(← (load m self).canProvide size align) then
      return (none, m)
    let (allocatedAddr, m) ← carve m self size align
    return (some allocatedAddr, m)

end Header

theorem Layout.size_bound (l : Layout) : l.size ≤ 2 ^ 63 := by
  have h := l.size_le
  omega

theorem Layout.align_bound (l : Layout) : l.align ≤ 2 ^ 63 := by
  have h := l.size_le
  omega

theorem Layout.needed_lt (l : Layout) (h : 0 < l.size) :
    blockSize l.size + 64 + blockAlign l.align < 2 ^ 64 := by
  have hsize := blockSize_le l.size_bound
  obtain ⟨k, hk⟩ := l.align_pow
  have hk' : k ≤ 62 := by
    have hlt : 2 ^ k < 2 ^ 63 := by
      have hle := l.size_le
      omega
    have hk63 := (Nat.pow_lt_pow_iff_right (a := 2) (by omega)).1 hlt
    omega
  have halign : blockAlign l.align ≤ 2 ^ 62 := by
    rw [blockAlign, hk]
    exact Nat.max_le.2 ⟨Nat.pow_le_pow_right (by omega) hk', by decide⟩
  omega

namespace Header

def Able (l : Layout) (h : Header) : Prop :=
  h.isAllocated = false ∧ blockSize l.size + 64 + blockAlign l.align ≤ h.size

instance (l : Layout) (h : Header) : Decidable (h.Able l) := inferInstanceAs (Decidable (_ ∧ _))

/-- Where `provide` puts the object: as high in the region as the alignment allows. -/
def carveAddr (l : Layout) (self : Nat) (h : Header) : Nat :=
  (self + h.size - blockSize l.size) / blockAlign l.align * blockAlign l.align

theorem carveAddr_le (l : Layout) (self : Nat) (h : Header) :
    carveAddr l self h ≤ self + h.size - blockSize l.size :=
  Nat.div_mul_le_self _ _

theorem lt_carveAddr (l : Layout) (self : Nat) (h : Header) :
    self + h.size - blockSize l.size < carveAddr l self h + blockAlign l.align := by
  have hpos : 0 < blockAlign l.align := lt_of_lt_of_le (by decide) (Nat.le_max_right _ _)
  have hm := Nat.div_add_mod (self + h.size - blockSize l.size) (blockAlign l.align)
  have hlt := Nat.mod_lt (self + h.size - blockSize l.size) hpos
  rw [carveAddr, Nat.mul_comm]
  omega

theorem provide_zero (m : Mem) (self align : Nat) : provide m self 0 align = .ok (none, m) := by
  rw [provide, roundUpToNearestPow2_zero]
  rfl

theorem canProvide_eq (l : Layout) (hl : 0 < l.size) (h : Header) :
    h.canProvide (blockSize l.size) (blockAlign l.align) =
      .ok (decide (blockSize l.size + 64 + blockAlign l.align ≤ h.size)) := by
  have hn : blockSize l.size + 32 * 2 + blockAlign l.align < 2 ^ 64 := l.needed_lt hl
  have hsize : blockSize l.size + 32 * 2 < 2 ^ 64 := by omega
  simp only [canProvide, headerSize]
  rw [checkedAdd_ok hsize, ok_bind, checkedAdd_ok hn, ok_bind]
  rfl

theorem provide_eq (l : Layout) (hl : 0 < l.size) (m : Mem) (self : Nat) :
    provide m self l.size l.align =
      if (load m self).Able l then do
        let (allocatedAddr, m) ← carve m self (blockSize l.size) (blockAlign l.align)
        return (some allocatedAddr, m)
      else .ok (none, m) := by
  have hsize : max (2 ^ Nat.clog 2 l.size) headerSize = blockSize l.size := rfl
  have halign : max l.align headerSize = blockAlign l.align := rfl
  rw [provide, roundUpToNearestPow2_eq hl l.size_bound]
  simp only [hsize, halign, canProvide_eq l hl, ok_bind, Able]
  by_cases ha : (load m self).isAllocated
  · simp [ha, pure, Except.pure]
  · by_cases hs : blockSize l.size + 64 + blockAlign l.align ≤ (load m self).size
    · simp [ha, hs]
    · simp [ha, hs, pure, Except.pure]

/-- The headers that take the place of a carved header, in address order. -/
def carved (l : Layout) (self : Nat) (h : Header) : List (Nat × Header) :=
  let addr := carveAddr l self h
  let blockEnd := addr + blockSize l.size
  let regionEnd := self + h.size
  (self, { h with nextHeader := some (addr - headerSize), size := addr - headerSize - self }) ::
  if blockEnd = regionEnd then
    [(addr - headerSize, ⟨h.nextHeader, blockSize l.size + headerSize, true⟩)]
  else
    [(addr - headerSize, ⟨some blockEnd, blockSize l.size + headerSize, true⟩),
      (blockEnd, ⟨h.nextHeader, regionEnd - blockEnd, false⟩)]

theorem padAfter_eq (h : blockEnd = regionEnd) :
    padAfter m regionEnd blockEnd hdr = .ok (hdr.size, hdr, m) :=
  if_neg (not_not.2 h)

theorem padAfter_ne (h : blockEnd ≠ regionEnd) :
    padAfter m regionEnd blockEnd hdr = (do
      let padSize ← checkedSub regionEnd blockEnd
      let sizeUsed ← checkedAdd hdr.size padSize
      return (sizeUsed, { hdr with nextHeader := some blockEnd },
        store m blockEnd ⟨hdr.nextHeader, padSize, false⟩)) :=
  if_pos h

/-- The memory after carving: one store for every header of `carved`, the last one first. -/
theorem carve_eq (l : Layout) (hl : 0 < l.size) (hm : load m self = h) (ha : h.Able l)
    (hend : self + h.size < 2 ^ 64) :
    carve m self (blockSize l.size) (blockAlign l.align) =
      .ok (carveAddr l self h, (carved l self h).foldr (fun c m => store m c.1 c.2) m) := by
  have hup := l.needed_lt hl
  have hpow : ∃ k ≤ 64, blockAlign l.align = 2 ^ k := by
    obtain ⟨j, _, hj, he⟩ := blockAlign_pow l.align_pow l.align_bound
    exact ⟨j, by omega, he⟩
  have halign : 32 ≤ blockAlign l.align := Nat.le_max_right _ _
  have hle := carveAddr_le l self h
  have hlt := lt_carveAddr l self h
  have hsize := ha.2
  have hr := headerSize_le_blockSize l.size
  have hblock : carveAddr l self h - headerSize + (blockSize l.size + headerSize) =
      carveAddr l self h + blockSize l.size := by
    simp only [headerSize]
    omega
  simp only [carve, endAddr, hm]
  rw [checkedAdd_ok hend, ok_bind, checkedSub_ok (by omega), ok_bind,
    land_complement_mask (by omega) hpow, ← carveAddr,
    checkedSub_ok (by simp only [headerSize]; omega), ok_bind,
    checkedAdd_ok (by simp only [headerSize]; omega), ok_bind,
    checkedAdd_ok (by simp only [headerSize]; omega), ok_bind, hblock]
  by_cases hpad : carveAddr l self h + blockSize l.size = self + h.size
  · have hshrunk :
        h.size - (blockSize l.size + headerSize) = carveAddr l self h - headerSize - self := by
      simp only [headerSize]
      omega
    rw [padAfter_eq hpad, ok_bind, checkedAdd_ok (by simp only [headerSize]; omega), ok_bind,
      if_neg (by simp only [headerSize]; omega)]
    simp only [carved, hpad, ↓reduceIte, List.foldr, hshrunk]
    rfl
  · have hshrunk : h.size - (blockSize l.size + headerSize + (self + h.size -
        (carveAddr l self h + blockSize l.size))) = carveAddr l self h - headerSize - self := by
      simp only [headerSize]
      omega
    rw [padAfter_ne hpad, checkedSub_ok (by omega), ok_bind,
      checkedAdd_ok (by simp only [headerSize]; omega), ok_bind]
    simp only [pure, Except.pure, ok_bind]
    rw [checkedAdd_ok (by simp only [headerSize]; omega), ok_bind,
      if_neg (by simp only [headerSize]; omega)]
    simp only [carved, hpad, ↓reduceIte, List.foldr, hshrunk]

end Header

end Wasabi
