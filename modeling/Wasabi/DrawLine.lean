import Wasabi.Graphics
import Wasabi.RoundDiv

namespace Wasabi
set_option autoImplicit true

def calcSlopePoint (da db ia : Int) : Except Fault (Option Int) := do
  if da < db then return none
  else if da = 0 then return some 0
  else if 0 ≤ ia ∧ ia ≤ da then
    let n ← I64.add (← I64.mul (← I64.mul 2 db) ia) da
    return some (← I64.div (← I64.div n da) 2)
  else return none

/-- One of the two loops of `draw_line`, along the axis of the difference `da`. -/
def drawSteps (da db : Int) (draw : Int → Int → Draw Unit) : Draw Unit :=
  (I64.range 0 da).forM fun ia => do
    match ← MonadExcept.ofExcept (calcSlopePoint da db ia) with
    | none => return ()
    | some ib => draw ia ib

def drawStep (buf : Bitmap) (color : UInt32) (x0 y0 sx sy rx ry : Int) : Draw Unit := do
  let x ← MonadExcept.ofExcept (do I64.add x0 (← I64.mul rx sx))
  let y ← MonadExcept.ofExcept (do I64.add y0 (← I64.mul ry sy))
  drawPoint buf color x y

def drawLine (buf : Bitmap) (color : UInt32) (x0 y0 x1 y1 : Int) : Draw Unit := do
  if ¬buf.IsInXRange x0 ∨ ¬buf.IsInXRange x1 ∨ ¬buf.IsInYRange y0 ∨ ¬buf.IsInYRange y1 then
    throw (.err "Out of Range")
  else
    let dx ← MonadExcept.ofExcept (do I64.abs (← I64.sub x1 x0))
    let sx ← MonadExcept.ofExcept (do return (← I64.sub x1 x0).sign)
    let dy ← MonadExcept.ofExcept (do I64.abs (← I64.sub y1 y0))
    let sy ← MonadExcept.ofExcept (do return (← I64.sub y1 y0).sign)
    if dx ≥ dy then drawSteps dx dy fun rx ry => drawStep buf color x0 y0 sx sy rx ry
    else drawSteps dy dx fun ry rx => drawStep buf color x0 y0 sx sy rx ry

structure Bitmap.Moderate (buf : Bitmap) : Prop where
  width : buf.width ≤ 2 ^ 30
  height : buf.height ≤ 2 ^ 30
  pixelsPerLine : buf.pixelsPerLine ≤ 2 ^ 30

def towards (a0 a1 k : Int) : Int := a0 + k * (a1 - a0).sign

/-- The real line through two points, along the first axis. -/
def lineAt (a0 b0 a1 b1 a : Int) : ℚ := b0 + (b1 - b0) * (a - a0) / (a1 - a0)

def minorAt (a0 b0 a1 b1 i : Int) : Int :=
  towards b0 b1 (roundDiv ((b1 - b0).natAbs * i) (a1 - a0).natAbs)

def linePoint (x0 y0 x1 y1 : Int) (i : Nat) : Int × Int :=
  if (y1 - y0).natAbs ≤ (x1 - x0).natAbs then (towards x0 x1 i, minorAt x0 y0 x1 y1 i)
  else (minorAt y0 x0 y1 x1 i, towards y0 y1 i)

section
variable {da db ia : Int}

theorem calcSlopePoint_eq (hda : 0 < da) (hle : db ≤ da) (hdb : 0 ≤ db) (hbound : da ≤ 2 ^ 30)
    (hlo : 0 ≤ ia) (hhi : ia ≤ da) :
    calcSlopePoint da db ia = .ok (some (roundDiv (db * ia) da)) := by
  have hnonneg : 0 ≤ db * ia := Int.mul_nonneg hdb hlo
  have hprod : db * ia ≤ 2 ^ 30 * 2 ^ 30 :=
    Int.mul_le_mul (by omega) (by omega) hlo (by decide)
  have hassoc : 2 * db * ia = 2 * (db * ia) := Int.mul_assoc _ _ _
  have hdiv : (2 * (db * ia) + da) / da ≤ 2 * (db * ia) + da := Int.ediv_le_self _ (by omega)
  have hdiv0 : 0 ≤ (2 * (db * ia) + da) / da := Int.ediv_nonneg (by omega) (by omega)
  have htwo : I64.mul 2 db = .ok (2 * db) := I64.mul_ok ⟨by omega, by omega⟩
  have hmul : I64.mul (2 * db) ia = .ok (2 * (db * ia)) := by
    rw [← hassoc]
    exact I64.mul_ok ⟨by omega, by omega⟩
  have hadd : I64.add (2 * (db * ia)) da = .ok (2 * (db * ia) + da) :=
    I64.add_ok ⟨by omega, by omega⟩
  have hfirst : I64.div (2 * (db * ia) + da) da = .ok ((2 * (db * ia) + da) / da) := by
    rw [I64.div, if_neg (by omega), Int.tdiv_eq_ediv_of_nonneg (by omega)]
    exact I64.ofInt_ok ⟨by omega, by omega⟩
  have hround : (2 * (db * ia) + da) / da / 2 = roundDiv (db * ia) da := by
    rw [Int.ediv_ediv_of_nonneg (by omega), Int.mul_comm da 2]
    rfl
  have hsecond : I64.div ((2 * (db * ia) + da) / da) 2 = .ok (roundDiv (db * ia) da) := by
    rw [I64.div, if_neg (by decide), Int.tdiv_eq_ediv_of_nonneg hdiv0, ← hround]
    exact I64.ofInt_ok ⟨by omega, by omega⟩
  rw [calcSlopePoint, if_neg (by omega), if_neg (by omega), if_pos ⟨hlo, hhi⟩, htwo, ok_bind, hmul,
    ok_bind, hadd, ok_bind, hfirst, ok_bind, hsecond]
  rfl

end

section
variable {a0 a1 b0 b1 : Int}

theorem natAbs_mul_sign (a : Int) : a.natAbs * a.sign = a := by
  rw [Int.mul_comm]
  exact Int.sign_mul_natAbs a

theorem sign_cases (a : Int) : a.sign = 1 ∨ a.sign = 0 ∨ a.sign = -1 := by
  rcases lt_trichotomy a 0 with h | h | h
  · exact .inr (.inr (Int.sign_eq_neg_one_of_neg h))
  · exact .inr (.inl (Int.sign_eq_zero_iff_zero.2 h))
  · exact .inl (Int.sign_eq_one_of_pos h)

theorem towards_between {k : Int} (hlo : 0 ≤ k) (hhi : k ≤ (a1 - a0).natAbs) :
    min a0 a1 ≤ towards a0 a1 k ∧ towards a0 a1 k ≤ max a0 a1 := by
  have habs := natAbs_mul_sign (a1 - a0)
  unfold towards
  rcases sign_cases (a1 - a0) with h | h | h <;> rw [h] at habs ⊢ <;> omega

theorem roundDiv_between {i : Int} (ha : 0 < (a1 - a0).natAbs) (hlo : 0 ≤ i)
    (hhi : i ≤ (a1 - a0).natAbs) :
    0 ≤ roundDiv ((b1 - b0).natAbs * i) (a1 - a0).natAbs ∧
      roundDiv ((b1 - b0).natAbs * i) (a1 - a0).natAbs ≤ (b1 - b0).natAbs := by
  have hpos : (0 : Int) < (a1 - a0).natAbs := by omega
  have hfirst := roundDiv_mul_self hpos 0
  have hlast := roundDiv_mul_self hpos (b1 - b0).natAbs
  rw [Int.zero_mul] at hfirst
  have hnum : 0 ≤ ((b1 - b0).natAbs : Int) * i := Int.mul_nonneg (by omega) hlo
  have hnum' : ((b1 - b0).natAbs : Int) * i ≤ (b1 - b0).natAbs * (a1 - a0).natAbs :=
    Int.mul_le_mul_of_nonneg_left hhi (by omega)
  have hge := roundDiv_le hpos hnum
  have hle := roundDiv_le hpos hnum'
  omega

theorem minorAt_between {i : Int} (ha : 0 < (a1 - a0).natAbs) (hlo : 0 ≤ i)
    (hhi : i ≤ (a1 - a0).natAbs) :
    min b0 b1 ≤ minorAt a0 b0 a1 b1 i ∧ minorAt a0 b0 a1 b1 i ≤ max b0 b1 := by
  obtain ⟨hge, hle⟩ := @roundDiv_between a0 a1 b0 b1 i ha hlo hhi
  exact towards_between hge hle

/-- Half a pixel from the line, with the differences taken apart into length and sign. -/
theorem lineAt_close {d e sa sb r i : Int} (hd : 0 < d) (ha : a1 - a0 = d * sa)
    (hb : b1 - b0 = e * sb) (hsa : sa ≠ 0) (hsb : |sb| ≤ 1)
    (hround : |(r : ℚ) - (e * i : Int) / d| ≤ 1 / 2) :
    |((b0 + r * sb : Int) : ℚ) - lineAt a0 b0 a1 b1 (a0 + i * sa)| ≤ 1 / 2 := by
  have hd' : (d : ℚ) ≠ 0 := by exact_mod_cast hd.ne'
  have hsa' : (sa : ℚ) ≠ 0 := by exact_mod_cast hsa
  have hsb' : |(sb : ℚ)| ≤ 1 := by exact_mod_cast hsb
  have ha' : (a1 - a0 : ℚ) = d * sa := by exact_mod_cast ha
  have hb' : (b1 - b0 : ℚ) = e * sb := by exact_mod_cast hb
  have hline : lineAt a0 b0 a1 b1 (a0 + i * sa) = b0 + sb * ((e * i : Int) / d) := by
    unfold lineAt
    rw [ha', hb']
    push_cast
    field_simp
    ring
  calc
    |((b0 + r * sb : Int) : ℚ) - lineAt a0 b0 a1 b1 (a0 + i * sa)|
        = |(sb : ℚ)| * |(r : ℚ) - (e * i : Int) / d| := by
      rw [hline, ← abs_mul]
      push_cast
      ring_nf
    _ ≤ 1 * (1 / 2) := mul_le_mul hsb' hround (abs_nonneg _) (by norm_num)
    _ = 1 / 2 := one_mul _

theorem minorAt_close (ha : 0 < (a1 - a0).natAbs) (i : Int) :
    |(minorAt a0 b0 a1 b1 i : ℚ) - lineAt a0 b0 a1 b1 (towards a0 a1 i)| ≤ 1 / 2 := by
  have hpos : (0 : Int) < (a1 - a0).natAbs := by omega
  refine lineAt_close hpos (natAbs_mul_sign _).symm (natAbs_mul_sign _).symm ?_ ?_
    (abs_roundDiv_sub_le hpos _)
  · rw [Ne, Int.sign_eq_zero_iff_zero]
    omega
  · rcases sign_cases (b1 - b0) with h | h | h <;> rw [h] <;> decide

theorem towards_connected (h : k ≤ k') (h' : k' ≤ k + 1) :
    (towards a0 a1 k' - towards a0 a1 k).natAbs ≤ 1 := by
  unfold towards
  rcases sign_cases (a1 - a0) with h | h | h <;> rw [h] <;> omega

theorem minorAt_connected (ha : 0 < (a1 - a0).natAbs)
    (hle : (b1 - b0).natAbs ≤ (a1 - a0).natAbs) (i : Int) :
    (minorAt a0 b0 a1 b1 (i + 1) - minorAt a0 b0 a1 b1 i).natAbs ≤ 1 := by
  have hpos : (0 : Int) < (a1 - a0).natAbs := by omega
  have hnum : ((b1 - b0).natAbs : Int) * (i + 1) =
      (b1 - b0).natAbs * i + (b1 - b0).natAbs := by ring
  have hge := roundDiv_le hpos (n := (b1 - b0).natAbs * i) (m := (b1 - b0).natAbs * (i + 1))
    (by omega)
  have hnext := roundDiv_add_le hpos (n := (b1 - b0).natAbs * i) (k := (b1 - b0).natAbs) (by omega)
  rw [← hnum] at hnext
  exact towards_connected hge hnext

end

section
variable {buf : Bitmap} {color : UInt32} {x0 y0 x1 y1 x y : Int}

theorem towards_ok {a0 a1 k : Int} (ha0 : 0 ≤ a0 ∧ a0 < 2 ^ 30) (hk : 0 ≤ k ∧ k ≤ 2 ^ 30) :
    (do I64.add a0 (← I64.mul k (a1 - a0).sign)) = .ok (towards a0 a1 k) := by
  have hmul : I64.mul k (a1 - a0).sign = .ok (k * (a1 - a0).sign) ∧
      I64.InRange (a0 + k * (a1 - a0).sign) := by
    rcases sign_cases (a1 - a0) with h | h | h <;> rw [h]
    all_goals exact ⟨I64.mul_ok ⟨by omega, by omega⟩, by omega, by omega⟩
  rw [hmul.1, ok_bind]
  exact I64.add_ok hmul.2

theorem drawSteps_ok {da db : Nat} (hle : db ≤ da) (hbound : da ≤ 2 ^ 30)
    {draw : Int → Int → Draw Unit} (point : Int → Int × Int)
    (hdraw : ∀ ia : Int, 0 ≤ ia → ia < da → ∀ s,
      draw ia (roundDiv (db * ia) da) s = .ok () (buf.paint color [point ia] s)) (s : Screen) :
    drawSteps da db draw s =
      .ok () (buf.paint color ((List.range da).map fun (i : Nat) => point i) s) := by
  have hpoints : (I64.range 0 da).flatMap (fun ia => [point ia]) =
      (List.range da).map fun (i : Nat) => point i := by
    rw [← List.map_eq_flatMap, I64.range, List.map_map, Int.sub_zero, Int.toNat_natCast]
    refine List.map_congr_left fun i _ => ?_
    exact congrArg point (Int.zero_add _)
  rw [← hpoints]
  refine Bitmap.forM_paint _ _ (fun ia hmem s => ?_) s
  obtain ⟨hlo, hhi⟩ := I64.mem_range.1 hmem
  rw [calcSlopePoint_eq (by omega) (by omega) (by omega) (by omega) hlo (by omega)]
  exact hdraw ia hlo hhi s

theorem linePoint_visible (h0 : buf.Visible x0 y0) (h1 : buf.Visible x1 y1)
    (hi : i < max (x1 - x0).natAbs (y1 - y0).natAbs) :
    buf.Visible (linePoint x0 y0 x1 y1 i).1 (linePoint x0 y0 x1 y1 i).2 := by
  have hbetween : (min x0 x1 ≤ (linePoint x0 y0 x1 y1 i).1 ∧
      (linePoint x0 y0 x1 y1 i).1 ≤ max x0 x1) ∧ min y0 y1 ≤ (linePoint x0 y0 x1 y1 i).2 ∧
      (linePoint x0 y0 x1 y1 i).2 ≤ max y0 y1 := by
    unfold linePoint
    split
    · exact ⟨towards_between (by omega) (by omega),
        minorAt_between (by omega) (by omega) (by omega)⟩
    · exact ⟨minorAt_between (by omega) (by omega) (by omega),
        towards_between (by omega) (by omega)⟩
  obtain ⟨⟨hx0, hxw0⟩, hy0, hyh0⟩ := h0
  obtain ⟨⟨hx1, hxw1⟩, hy1, hyh1⟩ := h1
  exact ⟨⟨by omega, by omega⟩, by omega, by omega⟩

def linePoints (x0 y0 x1 y1 : Int) : List (Int × Int) :=
  (List.range (max (x1 - x0).natAbs (y1 - y0).natAbs)).map (linePoint x0 y0 x1 y1)

theorem drawStep_ok {rx ry : Int} (hx0 : 0 ≤ x0 ∧ x0 < 2 ^ 30) (hy0 : 0 ≤ y0 ∧ y0 < 2 ^ 30)
    (hrx : 0 ≤ rx ∧ rx ≤ 2 ^ 30) (hry : 0 ≤ ry ∧ ry ≤ 2 ^ 30)
    (hv : buf.Visible (towards x0 x1 rx) (towards y0 y1 ry)) (s : Screen) :
    drawStep buf color x0 y0 (x1 - x0).sign (y1 - y0).sign rx ry s =
      .ok () (buf.paint color [(towards x0 x1 rx, towards y0 y1 ry)] s) := by
  rw [drawStep, ofExcept_bind (towards_ok hx0 hrx), ofExcept_bind (towards_ok hy0 hry)]
  exact drawPoint_ok hv s

theorem visible_bounds (hm : buf.Moderate) (h : buf.Visible x y) :
    (0 ≤ x ∧ x < 2 ^ 30) ∧ 0 ≤ y ∧ y < 2 ^ 30 := by
  have hw := hm.width
  have hh := hm.height
  obtain ⟨⟨hx, hxw⟩, hy, hyh⟩ := h
  exact ⟨⟨hx, by omega⟩, hy, by omega⟩

theorem difference_ok {a0 a1 : Int} (h0 : 0 ≤ a0 ∧ a0 < 2 ^ 30) (h1 : 0 ≤ a1 ∧ a1 < 2 ^ 30) :
    (do I64.abs (← I64.sub a1 a0)) = .ok ((a1 - a0).natAbs : Int) ∧
      (do return (← I64.sub a1 a0).sign) = Except.ok (a1 - a0).sign ∧
      (a1 - a0).natAbs ≤ 2 ^ 30 := by
  have hsub : I64.sub a1 a0 = .ok (a1 - a0) := I64.sub_ok ⟨by omega, by omega⟩
  rw [hsub, ok_bind, ok_bind]
  exact ⟨I64.ofInt_ok ⟨by omega, by omega⟩, rfl, by omega⟩

theorem drawLine_ok (hm : buf.Moderate) (h0 : buf.Visible x0 y0) (h1 : buf.Visible x1 y1)
    (s : Screen) : drawLine buf color x0 y0 x1 y1 s =
      .ok () (buf.paint color (linePoints x0 y0 x1 y1) s) := by
  have hvisible := fun i => @linePoint_visible buf x0 y0 x1 y1 i h0 h1
  have hin : ¬(¬buf.IsInXRange x0 ∨ ¬buf.IsInXRange x1 ∨ ¬buf.IsInYRange y0 ∨
      ¬buf.IsInYRange y1) := by
    unfold Bitmap.Visible at h0 h1
    tauto
  obtain ⟨hx0, hy0⟩ := visible_bounds hm h0
  obtain ⟨hx1, hy1⟩ := visible_bounds hm h1
  obtain ⟨hdx, hsx, hxle⟩ := difference_ok hx0 hx1
  obtain ⟨hdy, hsy, hyle⟩ := difference_ok hy0 hy1
  rw [drawLine, if_neg hin, ofExcept_bind hdx, ofExcept_bind hsx, ofExcept_bind hdy,
    ofExcept_bind hsy, linePoints]
  by_cases hle : (y1 - y0).natAbs ≤ (x1 - x0).natAbs
  · have hpoint : ∀ i : Nat, linePoint x0 y0 x1 y1 i = (towards x0 x1 i, minorAt x0 y0 x1 y1 i) :=
      fun i => if_pos hle
    rw [if_pos (by omega), max_eq_left hle, List.map_congr_left fun i _ => hpoint i]
    refine drawSteps_ok hle hxle (fun i => (towards x0 x1 i, minorAt x0 y0 x1 y1 i))
      (fun ia hlo hhi s => ?_) s
    obtain ⟨i, rfl⟩ := Int.eq_ofNat_of_zero_le hlo
    have hv := hvisible i (by omega)
    rw [hpoint] at hv
    obtain ⟨hge, hle'⟩ := @roundDiv_between x0 x1 y0 y1 i (by omega) hlo (by omega)
    exact drawStep_ok hx0 hy0 ⟨hlo, by omega⟩ ⟨hge, by omega⟩ hv s
  · have hpoint : ∀ i : Nat, linePoint x0 y0 x1 y1 i = (minorAt y0 x0 y1 x1 i, towards y0 y1 i) :=
      fun i => if_neg hle
    rw [if_neg (by omega), max_eq_right (by omega), List.map_congr_left fun i _ => hpoint i]
    refine drawSteps_ok (by omega) hyle (fun i => (minorAt y0 x0 y1 x1 i, towards y0 y1 i))
      (fun ia hlo hhi s => ?_) s
    obtain ⟨i, rfl⟩ := Int.eq_ofNat_of_zero_le hlo
    have hv := hvisible i (by omega)
    rw [hpoint] at hv
    obtain ⟨hge, hle'⟩ := @roundDiv_between y0 y1 x0 x1 i (by omega) hlo (by omega)
    exact drawStep_ok hx0 hy0 ⟨hge, by omega⟩ ⟨hlo, by omega⟩ hv s

theorem drawLine_outside (h : ¬(buf.Visible x0 y0 ∧ buf.Visible x1 y1)) (s : Screen) :
    drawLine buf color x0 y0 x1 y1 s = .error (.err "Out of Range") s := by
  have hout : ¬buf.IsInXRange x0 ∨ ¬buf.IsInXRange x1 ∨ ¬buf.IsInYRange y0 ∨
      ¬buf.IsInYRange y1 := by
    unfold Bitmap.Visible at h
    tauto
  rw [drawLine, if_pos hout]
  rfl

theorem mem_linePoints : (x, y) ∈ linePoints x0 y0 x1 y1 ↔
    ∃ i < max (x1 - x0).natAbs (y1 - y0).natAbs, linePoint x0 y0 x1 y1 i = (x, y) := by
  rw [linePoints, List.mem_map]
  exact exists_congr fun i => and_congr_left fun _ => List.mem_range

theorem linePoints_visible (h0 : buf.Visible x0 y0) (h1 : buf.Visible x1 y1)
    (hmem : (x, y) ∈ linePoints x0 y0 x1 y1) : buf.Visible x y := by
  obtain ⟨i, hi, he⟩ := mem_linePoints.1 hmem
  have hv := linePoint_visible h0 h1 hi
  rw [he] at hv
  exact hv

theorem towards_zero (a0 a1 : Int) : towards a0 a1 0 = a0 := by
  rw [towards, Int.zero_mul, Int.add_zero]

theorem minorAt_zero (ha : 0 < (x1 - x0).natAbs) : minorAt x0 y0 x1 y1 0 = y0 := by
  have hround := roundDiv_mul_self (d := (x1 - x0).natAbs) (by omega) 0
  rw [Int.zero_mul] at hround
  rw [minorAt, Int.mul_zero, hround, towards_zero]

theorem linePoint_zero (h : 0 < max (x1 - x0).natAbs (y1 - y0).natAbs) :
    linePoint x0 y0 x1 y1 0 = (x0, y0) := by
  unfold linePoint
  split
  · exact Prod.ext (towards_zero _ _) (minorAt_zero (by omega))
  · exact Prod.ext (minorAt_zero (by omega)) (towards_zero _ _)

end

/-- A point for each step along the longer axis, from the start on. It is at most half a pixel off
the real line, and next to the point before. -/
structure FollowsLine (x0 y0 x1 y1 : Int) (n : Nat) (point : Nat → Int × Int) : Prop where
  steps : n = max (x1 - x0).natAbs (y1 - y0).natAbs
  start : 0 < n → point 0 = (x0, y0)
  onLine : ∀ i < n, if (y1 - y0).natAbs ≤ (x1 - x0).natAbs
    then (point i).1 = x0 + i * (x1 - x0).sign ∧
      |((point i).2 : ℚ) - lineAt x0 y0 x1 y1 (point i).1| ≤ 1 / 2
    else (point i).2 = y0 + i * (y1 - y0).sign ∧
      |((point i).1 : ℚ) - lineAt y0 x0 y1 x1 (point i).2| ≤ 1 / 2
  connected : ∀ i, i + 1 < n → ((point (i + 1)).1 - (point i).1).natAbs ≤ 1 ∧
    ((point (i + 1)).2 - (point i).2).natAbs ≤ 1

theorem linePoint_follows (x0 y0 x1 y1 : Int) : FollowsLine x0 y0 x1 y1
    (max (x1 - x0).natAbs (y1 - y0).natAbs) (linePoint x0 y0 x1 y1) := by
  refine ⟨rfl, linePoint_zero, fun i hi => ?_, fun i hi => ?_⟩
  · unfold linePoint
    split
    · exact ⟨rfl, minorAt_close (by omega) i⟩
    · exact ⟨rfl, minorAt_close (by omega) i⟩
  · unfold linePoint
    split
    · exact ⟨towards_connected (by omega) (by omega), minorAt_connected (by omega) (by omega) i⟩
    · exact ⟨minorAt_connected (by omega) (by omega) i, towards_connected (by omega) (by omega)⟩

/-- Between visible points a line is drawn, one store for each of its points; otherwise nothing
happens. -/
structure DrawsLine (buf : Bitmap) (color : UInt32) (x0 y0 x1 y1 : Int) (s : Screen) : Prop where
  ok : buf.Visible x0 y0 → buf.Visible x1 y1 → ∃ s' n point,
    drawLine buf color x0 y0 x1 y1 s = .ok () s' ∧ FollowsLine x0 y0 x1 y1 n point ∧
    (∀ i < n, buf.Visible (point i).1 (point i).2) ∧
    s'.stores = s.stores ++ (List.range n).map (fun i => buf.address (point i).1 (point i).2) ∧
    buf.Painted color (fun x y => ∃ i < n, point i = (x, y)) s s'
  outside : ¬(buf.Visible x0 y0 ∧ buf.Visible x1 y1) →
    drawLine buf color x0 y0 x1 y1 s = .error (.err "Out of Range") s

theorem draw_line_follows (buf : Bitmap) (hm : buf.Moderate) (color : UInt32) (x0 y0 x1 y1 : Int)
    (s : Screen) : DrawsLine buf color x0 y0 x1 y1 s := by
  refine ⟨fun h0 h1 => ?_, fun h => drawLine_outside h s⟩
  refine ⟨_, _, _, drawLine_ok hm h0 h1 s, linePoint_follows x0 y0 x1 y1, fun i hi =>
    linePoint_visible h0 h1 hi, ?_, ?_⟩
  · rw [Bitmap.paint_stores, linePoints, List.map_map]
    rfl
  · exact Bitmap.paint_painted _
      (fun x y hxy => linePoints_visible h0 h1 (mem_linePoints.2 hxy)) fun x y => mem_linePoints

theorem draw_line_follows_smallBitmap :
    DrawsLine smallBitmap 0xffffff 0 0 2 1 ⟨fun _ => 0, []⟩ :=
  draw_line_follows smallBitmap ⟨by decide, by decide, by decide⟩ 0xffffff 0 0 2 1 _

section
variable {buf : Bitmap} {color : UInt32} {x0 y0 x1 y1 : Int} {s : Screen}

/-- The loops stop before the last point. -/
theorem end_not_drawn : (x1, y1) ∉ linePoints x0 y0 x1 y1 := by
  intro hmem
  obtain ⟨i, hi, he⟩ := mem_linePoints.1 hmem
  unfold linePoint towards at he
  have hx := natAbs_mul_sign (x1 - x0)
  have hy := natAbs_mul_sign (y1 - y0)
  split at he
  · have hfst := congrArg Prod.fst he
    dsimp only at hfst
    rcases sign_cases (x1 - x0) with h | h | h <;> rw [h] at hfst hx <;> omega
  · have hsnd := congrArg Prod.snd he
    dsimp only at hsnd
    rcases sign_cases (y1 - y0) with h | h | h <;> rw [h] at hsnd hy <;> omega

theorem start_drawn (hne : ¬(x1 = x0 ∧ y1 = y0)) : (x0, y0) ∈ linePoints x0 y0 x1 y1 := by
  have hpos : 0 < max (x1 - x0).natAbs (y1 - y0).natAbs := by omega
  exact mem_linePoints.2 ⟨0, hpos, linePoint_zero hpos⟩

theorem pixel_line (h0 : buf.Visible x0 y0) (h1 : buf.Visible x1 y1) (hv : buf.Visible x y) :
    readLe (buf.paint color (linePoints x0 y0 x1 y1) s).mem (buf.address x y) 4 =
      if (x, y) ∈ linePoints x0 y0 x1 y1 then color.toNat
      else readLe s.mem (buf.address x y) 4 := by
  have hpainted : buf.Painted color (fun x y => (x, y) ∈ linePoints x0 y0 x1 y1) s
      (buf.paint color (linePoints x0 y0 x1 y1) s) :=
    Bitmap.paint_painted _ (fun x y => linePoints_visible h0 h1) fun x y => Iff.rfl
  split
  · next hmem => exact hpainted.color x y hmem
  · next hmem =>
    refine readLe_congr fun b hlo hhi => hpainted.frame b fun x' y' hmem' => ?_
    rcases hv.apart (linePoints_visible h0 h1 hmem') with ⟨rfl, rfl⟩ | hapart
    · exact absurd hmem' hmem
    · unfold Apart at hapart
      omega

end

/-- The end of a line is not drawn: it has the color only if it had it before. -/
theorem draw_line_both_ends_iff (buf : Bitmap) (hm : buf.Moderate) (color : UInt32)
    (x0 y0 x1 y1 : Int) (h0 : buf.Visible x0 y0) (h1 : buf.Visible x1 y1) (s : Screen) :
    (∃ s', drawLine buf color x0 y0 x1 y1 s = .ok () s' ∧
      readLe s'.mem (buf.address x0 y0) 4 = color.toNat ∧
      readLe s'.mem (buf.address x1 y1) 4 = color.toNat) ↔
    readLe s.mem (buf.address x1 y1) 4 = color.toNat := by
  have hend := @pixel_line buf color x0 y0 x1 y1 s x1 y1 h0 h1 h1
  rw [if_neg end_not_drawn] at hend
  constructor
  · rintro ⟨s', h, _, hcolor⟩
    cases (drawLine_ok hm h0 h1 s).symm.trans h
    exact hend.symm.trans hcolor
  · intro hcolor
    refine ⟨_, drawLine_ok hm h0 h1 s, ?_, hend.trans hcolor⟩
    by_cases hne : x1 = x0 ∧ y1 = y0
    · obtain ⟨rfl, rfl⟩ := hne
      exact hend.trans hcolor
    · rw [pixel_line h0 h1 h0, if_pos (start_drawn hne)]

theorem draw_line_both_ends_iff_drawn :
    ∃ s', drawLine smallBitmap 0xffffff 0 0 2 1
        ⟨writeLe (fun _ => 0) (smallBitmap.address 2 1) 4 0xffffff, []⟩ = .ok () s' ∧
      readLe s'.mem (smallBitmap.address 0 0) 4 = 0xffffff ∧
      readLe s'.mem (smallBitmap.address 2 1) 4 = 0xffffff :=
  (draw_line_both_ends_iff smallBitmap ⟨by decide, by decide, by decide⟩ 0xffffff 0 0 2 1
    (by decide) (by decide) _).2 (by decide)

theorem draw_line_misses_end :
    ¬∃ s', drawLine smallBitmap 0xffffff 0 0 2 1 ⟨fun _ => 0, []⟩ = .ok () s' ∧
      readLe s'.mem (smallBitmap.address 0 0) 4 = 0xffffff ∧
      readLe s'.mem (smallBitmap.address 2 1) 4 = 0xffffff := by
  rintro ⟨s', h, _, hcolor⟩
  cases (drawLine_ok ⟨by decide, by decide, by decide⟩ (by decide) (by decide) _).symm.trans h
  exact absurd hcolor (by decide)

end Wasabi
