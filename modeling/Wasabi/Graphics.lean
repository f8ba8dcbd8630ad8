import Wasabi.Cells
import Wasabi.I64
import Wasabi.Outcome
import Mathlib.Tactic.Linarith

namespace Wasabi
set_option autoImplicit true

/-- A `Bitmap`: its methods' values, which are `i64`, and its buffer, which lies in memory. -/
structure Bitmap where
  bytesPerPixel : Int
  pixelsPerLine : Int
  width : Int
  height : Int
  buf : Nat
  four : bytesPerPixel = 4
  size_lt : pixelsPerLine * height * 4 < 2 ^ 63

/-- The memory with the video memory in it, and where stores have gone so far. -/
structure Screen where
  mem : Mem
  stores : List Nat

abbrev Draw := EStateM Fault Screen

def Screen.store (s : Screen) (p : Nat) (color : UInt32) : Screen :=
  ⟨writeLe s.mem p 4 color.toNat, s.stores ++ [p]⟩

namespace Bitmap

variable (buf : Bitmap)

def uncheckedPixelAtMut (x y : Int) : Except Fault Nat := do
  let offset ← I64.mul (← I64.add (← I64.mul y buf.pixelsPerLine) x) buf.bytesPerPixel
  return buf.buf + I64.asUsize offset

def IsInXRange (px : Int) : Prop := 0 ≤ px ∧ px < min buf.width buf.pixelsPerLine

def IsInYRange (py : Int) : Prop := 0 ≤ py ∧ py < buf.height

instance (px : Int) : Decidable (buf.IsInXRange px) := inferInstanceAs (Decidable (_ ∧ _))

instance (py : Int) : Decidable (buf.IsInYRange py) := inferInstanceAs (Decidable (_ ∧ _))

def pixelAtMut (x y : Int) : Except Fault (Option Nat) := do
  if buf.IsInXRange x ∧ buf.IsInYRange y then return some (← buf.uncheckedPixelAtMut x y)
  else return none

end Bitmap

def uncheckedDrawPoint (buf : Bitmap) (color : UInt32) (x y : Int) : Draw Unit := do
  let p ← MonadExcept.ofExcept (buf.uncheckedPixelAtMut x y)
  modify fun s => s.store p color

def drawPoint (buf : Bitmap) (color : UInt32) (x y : Int) : Draw Unit := do
  match ← MonadExcept.ofExcept (buf.pixelAtMut x y) with
  | none => throw (.err "Out of Range")
  | some p => modify fun s => s.store p color

/-- The check of `fill_rect`; a corner is not computed when an earlier one is outside. -/
def fillRectOutside (buf : Bitmap) (px py w h : Int) : Except Fault Bool := do
  if ¬buf.IsInXRange px ∨ ¬buf.IsInYRange py then return true
  else
    let right ← I64.sub (← I64.add px w) 1
    if ¬buf.IsInXRange right then return true
    else
      let bottom ← I64.sub (← I64.add py h) 1
      return decide ¬buf.IsInYRange bottom

def fillRect (buf : Bitmap) (color : UInt32) (px py w h : Int) : Draw Unit := do
  if ← MonadExcept.ofExcept (fillRectOutside buf px py w h) then
    throw (.err "Out of Range")
  else
    let bottom ← MonadExcept.ofExcept (I64.add py h)
    (I64.range py bottom).forM fun y => do
      let right ← MonadExcept.ofExcept (I64.add px w)
      (I64.range px right).forM fun x => uncheckedDrawPoint buf color x y

namespace Bitmap

variable (buf : Bitmap)

def Visible (x y : Int) : Prop := buf.IsInXRange x ∧ buf.IsInYRange y

instance (x y : Int) : Decidable (buf.Visible x y) := inferInstanceAs (Decidable (_ ∧ _))

def address (x y : Int) : Nat := buf.buf + ((y * buf.pixelsPerLine + x) * 4).toNat

def size : Nat := (buf.pixelsPerLine * buf.height * 4).toNat

variable {buf} {x y x' y' : Int}

theorem Visible.index (h : buf.Visible x y) : 0 ≤ y * buf.pixelsPerLine + x ∧
    y * buf.pixelsPerLine + x < buf.pixelsPerLine * buf.height := by
  obtain ⟨⟨hx, hxw⟩, hy, hyh⟩ := h
  have hppl : x < buf.pixelsPerLine := lt_of_lt_of_le hxw (min_le_right _ _)
  constructor
  · nlinarith
  · nlinarith

theorem Visible.index_inj (h : buf.Visible x y) (h' : buf.Visible x' y')
    (he : y * buf.pixelsPerLine + x = y' * buf.pixelsPerLine + x') : x = x' ∧ y = y' := by
  obtain ⟨⟨hx, hxw⟩, _⟩ := h
  obtain ⟨⟨hx', hxw'⟩, _⟩ := h'
  have hppl : x < buf.pixelsPerLine := lt_of_lt_of_le hxw (min_le_right _ _)
  have hppl' : x' < buf.pixelsPerLine := lt_of_lt_of_le hxw' (min_le_right _ _)
  have hy : y = y' := by
    rcases lt_trichotomy y y' with hlt | heq | hgt
    · nlinarith
    · exact heq
    · nlinarith
  subst hy
  exact ⟨by linarith, rfl⟩

theorem Visible.apart (h : buf.Visible x y) (h' : buf.Visible x' y') :
    x = x' ∧ y = y' ∨ Apart (buf.address x y) 4 (buf.address x' y') 4 := by
  by_cases he : y * buf.pixelsPerLine + x = y' * buf.pixelsPerLine + x'
  · exact .inl (h.index_inj h' he)
  · obtain ⟨hlo, _⟩ := h.index
    obtain ⟨hlo', _⟩ := h'.index
    right
    unfold Apart address
    omega

theorem Visible.inside (h : buf.Visible x y) :
    buf.buf ≤ buf.address x y ∧ buf.address x y + 4 ≤ buf.buf + buf.size := by
  obtain ⟨hlo, hhi⟩ := h.index
  unfold address size
  omega

theorem Visible.unchecked (h : buf.Visible x y) :
    buf.uncheckedPixelAtMut x y = .ok (buf.address x y) := by
  obtain ⟨hlo, hhi⟩ := h.index
  obtain ⟨⟨hx, hxw⟩, hy, _⟩ := h
  have hsize := buf.size_lt
  have hppl : x < buf.pixelsPerLine := lt_of_lt_of_le hxw (min_le_right _ _)
  have hline : 0 ≤ y * buf.pixelsPerLine := Int.mul_nonneg hy (by omega)
  have hmul : I64.mul y buf.pixelsPerLine = .ok (y * buf.pixelsPerLine) :=
    I64.mul_ok ⟨by omega, by omega⟩
  have hadd : I64.add (y * buf.pixelsPerLine) x = .ok (y * buf.pixelsPerLine + x) :=
    I64.add_ok ⟨by omega, by omega⟩
  have hbytes : I64.mul (y * buf.pixelsPerLine + x) 4 =
      .ok ((y * buf.pixelsPerLine + x) * 4) := I64.mul_ok ⟨by omega, by omega⟩
  rw [uncheckedPixelAtMut, hmul, ok_bind, hadd, ok_bind, buf.four, hbytes, ok_bind,
    I64.asUsize_eq (by omega) (by omega)]
  rfl

variable (buf)

def paint (color : UInt32) (ps : List (Int × Int)) (s : Screen) : Screen :=
  ps.foldl (fun s p => s.store (buf.address p.1 p.2) color) s

/-- The points in `P` have the color, and all other bytes are as before. -/
structure Painted (color : UInt32) (P : Int → Int → Prop) (s s' : Screen) : Prop where
  color : ∀ x y, P x y → readLe s'.mem (buf.address x y) 4 = color.toNat
  frame : ∀ a, (∀ x y, P x y → a < buf.address x y ∨ buf.address x y + 4 ≤ a) → s'.mem a = s.mem a

def StoresInside (s s' : Screen) : Prop :=
  ∃ cells, s'.stores = s.stores ++ cells ∧
    ∀ p ∈ cells, buf.buf ≤ p ∧ p + 4 ≤ buf.buf + buf.size

variable {buf} {color : UInt32} {s : Screen}

theorem paint_append (ps qs : List (Int × Int)) :
    buf.paint color (ps ++ qs) s = buf.paint color qs (buf.paint color ps s) :=
  List.foldl_append

theorem paint_mem (ps : List (Int × Int)) : (buf.paint color ps s).mem =
    fillCells 4 color.toNat s.mem (ps.map fun p => buf.address p.1 p.2) := by
  induction ps generalizing s with
  | nil => rfl
  | cons p ps ih => exact ih

theorem paint_stores (ps : List (Int × Int)) : (buf.paint color ps s).stores =
    s.stores ++ ps.map fun p => buf.address p.1 p.2 := by
  induction ps generalizing s with
  | nil => exact (List.append_nil _).symm
  | cons p ps ih => exact ih.trans (List.append_cons _ _ _).symm

theorem paint_painted {P : Int → Int → Prop} (ps : List (Int × Int))
    (hvisible : ∀ x y, P x y → buf.Visible x y) (hP : ∀ x y, (x, y) ∈ ps ↔ P x y) :
    buf.Painted color P s (buf.paint color ps s) := by
  constructor
  case color =>
    intro x y hxy
    have hmem : buf.address x y ∈ ps.map fun p => buf.address p.1 p.2 :=
      List.mem_map.2 ⟨(x, y), (hP x y).2 hxy, rfl⟩
    rw [paint_mem, readLe_fillCells (fun c hc => ?_) color.toNat_lt, if_pos hmem]
    obtain ⟨⟨x', y'⟩, hp, rfl⟩ := List.mem_map.1 hc
    rcases (hvisible x y hxy).apart (hvisible x' y' ((hP x' y').1 hp)) with ⟨rfl, rfl⟩ | hapart
    · exact .inl rfl
    · exact .inr hapart
  case frame =>
    intro a ha
    rw [paint_mem]
    refine fillCells_frame fun c hc => ?_
    obtain ⟨⟨x, y⟩, hp, rfl⟩ := List.mem_map.1 hc
    exact ha x y ((hP x y).1 hp)

theorem paint_inside (ps : List (Int × Int)) (hvisible : ∀ p ∈ ps, buf.Visible p.1 p.2) :
    buf.StoresInside s (buf.paint color ps s) := by
  refine ⟨_, paint_stores ps, fun c hc => ?_⟩
  obtain ⟨p, hp, rfl⟩ := List.mem_map.1 hc
  exact (hvisible p hp).inside

theorem forM_paint {f : α → Draw Unit} (points : α → List (Int × Int)) (l : List α)
    (h : ∀ a ∈ l, ∀ s, f a s = .ok () (buf.paint color (points a) s)) (s : Screen) :
    l.forM f s = .ok () (buf.paint color (l.flatMap points) s) := by
  induction l generalizing s with
  | nil => rfl
  | cons a l ih =>
    obtain ⟨ha, hl⟩ := List.forall_mem_cons.1 h
    have hcons : (a :: l).forM f s = (f a >>= fun _ => l.forM f) s := rfl
    rw [hcons, bind_of_ok (ha s), ih hl, List.flatMap_cons, paint_append]

end Bitmap

section
variable {buf : Bitmap} {color : UInt32} {px py w h x y : Int}

theorem uncheckedDrawPoint_ok (hv : buf.Visible x y) (s : Screen) :
    uncheckedDrawPoint buf color x y s = .ok () (buf.paint color [(x, y)] s) := by
  rw [uncheckedDrawPoint, ofExcept_bind hv.unchecked]
  rfl

theorem drawPoint_ok (hv : buf.Visible x y) (s : Screen) :
    drawPoint buf color x y s = .ok () (buf.paint color [(x, y)] s) := by
  have hrange : buf.IsInXRange x ∧ buf.IsInYRange y := hv
  have hp : buf.pixelAtMut x y = .ok (some (buf.address x y)) := by
    rw [Bitmap.pixelAtMut, if_pos hrange, hv.unchecked]
    rfl
  rw [drawPoint, ofExcept_bind hp]
  rfl

theorem drawPoint_error (hv : ¬buf.Visible x y) (s : Screen) :
    drawPoint buf color x y s = .error (.err "Out of Range") s := by
  have hp : buf.pixelAtMut x y = .ok none := if_neg hv
  rw [drawPoint, ofExcept_bind hp]
  rfl

theorem fillRectOutside_eq (hx : I64.InRange (px + w)) (hx' : I64.InRange (px + w - 1))
    (hy : I64.InRange (py + h)) (hy' : I64.InRange (py + h - 1)) :
    fillRectOutside buf px py w h = .ok (decide ¬(buf.IsInXRange px ∧ buf.IsInYRange py ∧
      buf.IsInXRange (px + w - 1) ∧ buf.IsInYRange (py + h - 1))) := by
  rw [fillRectOutside, I64.add_ok hx, ok_bind, I64.sub_ok hx', ok_bind, I64.add_ok hy, ok_bind,
    I64.sub_ok hy', ok_bind]
  by_cases hcorner : buf.IsInXRange px ∧ buf.IsInYRange py
  · rw [if_neg (by tauto)]
    by_cases hright : buf.IsInXRange (px + w - 1)
    · rw [if_neg (not_not.2 hright)]
      exact congrArg Except.ok (decide_eq_decide.2 (by tauto))
    · rw [if_pos hright]
      exact congrArg Except.ok (decide_eq_true (by tauto)).symm
  · rw [if_pos (by tauto)]
    exact congrArg Except.ok (decide_eq_true (by tauto)).symm

def rectangle (px py w h : Int) : List (Int × Int) :=
  (I64.range py (py + h)).flatMap fun y => (I64.range px (px + w)).flatMap fun x => [(x, y)]

theorem mem_rectangle :
    (x, y) ∈ rectangle px py w h ↔ (px ≤ x ∧ x < px + w) ∧ py ≤ y ∧ y < py + h := by
  simp only [rectangle, List.mem_flatMap, I64.mem_range, List.mem_singleton, Prod.mk.injEq]
  constructor
  · rintro ⟨y', hy, x', hx, rfl, rfl⟩
    exact ⟨hx, hy⟩
  · rintro ⟨hx, hy⟩
    exact ⟨y, hy, x, hx, rfl, rfl⟩

theorem fillRect_ok (hx : I64.InRange (px + w)) (hy : I64.InRange (py + h))
    (houtside : fillRectOutside buf px py w h = .ok false)
    (hvisible : ∀ x y, (px ≤ x ∧ x < px + w) ∧ py ≤ y ∧ y < py + h → buf.Visible x y) (s : Screen) :
    fillRect buf color px py w h s = .ok () (buf.paint color (rectangle px py w h) s) := by
  rw [fillRect, ofExcept_bind houtside, if_neg Bool.false_ne_true, ofExcept_bind (I64.add_ok hy)]
  refine Bitmap.forM_paint _ _ (fun y hmem s => ?_) s
  rw [ofExcept_bind (I64.add_ok hx)]
  refine Bitmap.forM_paint _ _ (fun x hmem' s => ?_) s
  exact uncheckedDrawPoint_ok (hvisible x y ⟨I64.mem_range.1 hmem', I64.mem_range.1 hmem⟩) s

end

/-- A rectangle that is not empty is drawn exactly when it is visible. Whatever is drawn is the
rectangle, and a refusal changes nothing. -/
structure FillsExactly (buf : Bitmap) (color : UInt32) (px py w h : Int) (s : Screen) : Prop where
  ok_iff : 0 < w → 0 < h → ((∃ s', fillRect buf color px py w h s = .ok () s') ↔
    (0 ≤ px ∧ px + w ≤ min buf.width buf.pixelsPerLine) ∧ 0 ≤ py ∧ py + h ≤ buf.height)
  ok : ∀ s', fillRect buf color px py w h s = .ok () s' →
    buf.Painted color (fun x y => (px ≤ x ∧ x < px + w) ∧ py ≤ y ∧ y < py + h) s s' ∧
      buf.StoresInside s s'
  error : ∀ e s', fillRect buf color px py w h s = .error e s' → e = .err "Out of Range" ∧ s' = s

theorem fill_rect_exact (buf : Bitmap) (color : UInt32) (px py w h : Int)
    (hx : I64.InRange (px + w)) (hx' : I64.InRange (px + w - 1)) (hy : I64.InRange (py + h))
    (hy' : I64.InRange (py + h - 1)) (s : Screen) : FillsExactly buf color px py w h s := by
  have houtside := @fillRectOutside_eq buf px py w h hx hx' hy hy'
  by_cases hcorners : buf.IsInXRange px ∧ buf.IsInYRange py ∧ buf.IsInXRange (px + w - 1) ∧
      buf.IsInYRange (py + h - 1)
  · rw [decide_eq_false (not_not.2 hcorners)] at houtside
    obtain ⟨⟨hx0, _⟩, ⟨hy0, _⟩, ⟨_, hx1⟩, ⟨_, hy1⟩⟩ := hcorners
    have hvisible : ∀ x y, (px ≤ x ∧ x < px + w) ∧ py ≤ y ∧ y < py + h → buf.Visible x y := by
      rintro x y ⟨⟨hxl, hxu⟩, hyl, hyu⟩
      exact ⟨⟨by omega, by omega⟩, by omega, by omega⟩
    have hok := @fillRect_ok buf color px py w h hx hy houtside hvisible s
    refine ⟨fun _ _ => iff_of_true ⟨_, hok⟩ ⟨⟨hx0, by omega⟩, hy0, by omega⟩, fun s' h' => ?_,
      fun e s' h' => ?_⟩
    · cases hok.symm.trans h'
      exact ⟨Bitmap.paint_painted _ hvisible fun x y => mem_rectangle, Bitmap.paint_inside _
        fun p hp => hvisible p.1 p.2 (mem_rectangle.1 hp)⟩
    · cases hok.symm.trans h'
  · rw [decide_eq_true hcorners] at houtside
    have herr : fillRect buf color px py w h s = .error (.err "Out of Range") s := by
      rw [fillRect, ofExcept_bind houtside, if_pos rfl]
      rfl
    refine ⟨fun hw hh => iff_of_false ?_ fun hin => hcorners ?_, fun s' h' => ?_, fun e s' h' => ?_⟩
    · rintro ⟨s', h'⟩
      cases herr.symm.trans h'
    · obtain ⟨⟨hx0, hx1⟩, hy0, hy1⟩ := hin
      exact ⟨⟨hx0, by omega⟩, ⟨hy0, by omega⟩, ⟨by omega, by omega⟩, by omega, by omega⟩
    · cases herr.symm.trans h'
    · cases herr.symm.trans h'
      exact ⟨rfl, rfl⟩

def smallBitmap : Bitmap := ⟨4, 4, 3, 2, 0x1000, rfl, by decide⟩

theorem fill_rect_exact_smallBitmap :
    FillsExactly smallBitmap 0xff0000 1 0 2 2 ⟨fun _ => 0, []⟩ :=
  fill_rect_exact smallBitmap 0xff0000 1 0 2 2 (by decide) (by decide) (by decide) (by decide) _

end Wasabi
