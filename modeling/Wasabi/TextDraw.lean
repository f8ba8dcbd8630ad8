import Wasabi.Font
import Wasabi.Graphics

namespace Wasabi
set_option autoImplicit true

/-- `let _ =`: an error is dropped, a panic is not. -/
def dropErr (draw : Draw Unit) : Draw Unit := fun s =>
  match draw s with
  | .error (.err _) s => .ok () s
  | result => result

def drawFontFg (font : Font) (buf : Bitmap) (x y : Int) (color : UInt32) (c : Char) :
    Draw Unit := do
  if c.toNat < 256 then
    match lookupGlyph font c with
    | none => return ()
    | some glyph =>
      (List.finRange 16).forM fun dy => (List.finRange 8).forM fun dx => do
        if glyph dy dx = '*' then
          let px ← MonadExcept.ofExcept (I64.add x dx.val)
          let py ← MonadExcept.ofExcept (I64.add y dy.val)
          dropErr (drawPoint buf color px py)

def drawStrFg (font : Font) (buf : Bitmap) (x y : Int) (color : UInt32) (s : List Char) :
    Draw Unit :=
  s.zipIdx.forM fun (c, i) => do
    let px ← MonadExcept.ofExcept (do I64.add x (← I64.mul i 8))
    drawFontFg font buf px y color c

structure BitmapTextWriter where
  buf : Bitmap
  cursorX : Int
  cursorY : Int

namespace BitmapTextWriter

def writeChar (font : Font) (w : BitmapTextWriter) (c : Char) : Draw BitmapTextWriter := do
  if c = '\n' then
    let cursorY ← MonadExcept.ofExcept (I64.add w.cursorY 16)
    return { w with cursorX := 0, cursorY := cursorY }
  else
    drawFontFg font w.buf w.cursorX w.cursorY 0xffffff c
    let cursorX ← MonadExcept.ofExcept (I64.add w.cursorX 8)
    return { w with cursorX := cursorX }

def writeStr (font : Font) (w : BitmapTextWriter) (s : List Char) : Draw BitmapTextWriter :=
  s.foldlM (writeChar font) w

end BitmapTextWriter

/-- No coordinate of `n` characters that start at a point leaves `i64`. -/
structure TextFits (x y : Int) (n : Nat) : Prop where
  offsets : ∀ i < n, I64.InRange (8 * i)
  columns : ∀ i < n, ∀ dx : Fin 8, I64.InRange (x + 8 * i + dx.val)
  rows : ∀ dy : Fin 16, I64.InRange (y + dy.val)

def Inked (font : Font) (x y : Int) (s : List Char) (px py : Int) : Prop :=
  ∃ (i : Nat) (c : Char) (glyph : Glyph) (dy : Fin 16) (dx : Fin 8), s[i]? = some c ∧
    lookupGlyph font c = some glyph ∧ glyph dy dx = '*' ∧
    px = x + 8 * i + dx.val ∧ py = y + dy.val

/-- The points of a character, row by row, as far as they are visible. -/
def glyphPoints (font : Font) (buf : Bitmap) (x y : Int) (c : Char) : List (Int × Int) :=
  match lookupGlyph font c with
  | none => []
  | some glyph => (List.finRange 16).flatMap fun dy => (List.finRange 8).flatMap fun dx =>
    if glyph dy dx = '*' ∧ buf.Visible (x + dx.val) (y + dy.val)
      then [(x + dx.val, y + dy.val)] else []

def textPoints (font : Font) (buf : Bitmap) (x y : Int) (s : List Char) : List (Int × Int) :=
  s.zipIdx.flatMap fun (c, i) => glyphPoints font buf (x + 8 * i) y c

section
variable {font : Font} {buf : Bitmap} {color : UInt32} {x y px py : Int} {c : Char}

theorem mem_glyphPoints : (px, py) ∈ glyphPoints font buf x y c ↔ buf.Visible px py ∧
    ∃ glyph dy dx, lookupGlyph font c = some glyph ∧ glyph dy dx = '*' ∧
      px = x + dx.val ∧ py = y + dy.val := by
  unfold glyphPoints
  cases hglyph : lookupGlyph font c with
  | none =>
    refine iff_of_false List.not_mem_nil ?_
    rintro ⟨_, _, _, _, h, _⟩
    cases h
  | some glyph =>
    simp only [List.mem_flatMap, List.mem_finRange, true_and]
    constructor
    · rintro ⟨dy, dx, hmem⟩
      split at hmem
      · next h =>
        cases List.mem_singleton.1 hmem
        exact ⟨h.2, glyph, dy, dx, rfl, h.1, rfl, rfl⟩
      · cases hmem
    · rintro ⟨hv, _, dy, dx, heq, hstar, rfl, rfl⟩
      cases heq
      refine ⟨dy, dx, ?_⟩
      rw [if_pos ⟨hstar, hv⟩]
      exact List.mem_cons_self

theorem mem_textPoints : (px, py) ∈ textPoints font buf x y s ↔
    buf.Visible px py ∧ Inked font x y s px py := by
  rw [textPoints, List.mem_flatMap]
  constructor
  · rintro ⟨⟨c, i⟩, hmem, hp⟩
    obtain ⟨hv, glyph, dy, dx, hglyph, hstar, hx, hy⟩ := mem_glyphPoints.1 hp
    exact ⟨hv, i, c, glyph, dy, dx, List.mem_zipIdx_iff_getElem?.1 hmem, hglyph, hstar, hx, hy⟩
  · rintro ⟨hv, i, c, glyph, dy, dx, hc, hglyph, hstar, hx, hy⟩
    exact ⟨(c, i), List.mem_zipIdx_iff_getElem?.2 hc,
      mem_glyphPoints.2 ⟨hv, glyph, dy, dx, hglyph, hstar, hx, hy⟩⟩

theorem dropErr_drawPoint (s : Screen) : dropErr (drawPoint buf color x y) s =
    .ok () (buf.paint color (if buf.Visible x y then [(x, y)] else []) s) := by
  unfold dropErr
  by_cases hv : buf.Visible x y
  · rw [drawPoint_ok hv, if_pos hv]
  · rw [drawPoint_error hv, if_neg hv]
    rfl

theorem drawFontFg_ok (hcolumns : ∀ dx : Fin 8, I64.InRange (x + dx.val))
    (hrows : ∀ dy : Fin 16, I64.InRange (y + dy.val)) (s : Screen) :
    drawFontFg font buf x y color c s =
      .ok () (buf.paint color (glyphPoints font buf x y c) s) := by
  unfold drawFontFg glyphPoints
  cases hglyph : lookupGlyph font c with
  | none => exact congrFun (ite_self _) s
  | some glyph =>
    rw [if_pos (lookupGlyph_lt hglyph)]
    refine Bitmap.forM_paint _ _ (fun dy _ s => ?_) s
    refine Bitmap.forM_paint _ _ (fun dx _ s => ?_) s
    split
    · next hstar =>
      rw [ofExcept_bind (I64.add_ok (hcolumns dx)),
        ofExcept_bind (I64.add_ok (hrows dy)), dropErr_drawPoint]
      by_cases hv : buf.Visible (x + dx.val) (y + dy.val)
      · rw [if_pos hv, if_pos ⟨hstar, hv⟩]
      · rw [if_neg hv, if_neg fun h => hv h.2]
    · next hstar =>
      rw [if_neg fun h => hstar h.1]
      rfl

theorem drawStrFg_ok (hfits : TextFits x y s.length) (scr : Screen) :
    drawStrFg font buf x y color s scr =
      .ok () (buf.paint color (textPoints font buf x y s) scr) := by
  refine Bitmap.forM_paint _ _ (fun p hmem scr => ?_) scr
  obtain ⟨c, i⟩ := p
  have hi : i < s.length := (List.mem_zipIdx' hmem).1
  have hmul : I64.mul i 8 = .ok (8 * i) := by
    rw [I64.mul, Int.mul_comm]
    exact I64.ofInt_ok (hfits.offsets i hi)
  have hx : (do I64.add x (← I64.mul i 8)) = .ok (x + 8 * i) := by
    rw [hmul, ok_bind]
    exact I64.add_ok (by simpa using hfits.columns i hi 0)
  dsimp only
  rw [ofExcept_bind hx]
  exact drawFontFg_ok (hfits.columns i hi) hfits.rows scr

theorem textPoints_cons (c : Char) (s : List Char) : textPoints font buf x y (c :: s) =
    glyphPoints font buf x y c ++ textPoints font buf (x + 8) y s := by
  rw [textPoints, List.zipIdx_cons', List.flatMap_cons, List.flatMap_map]
  refine congrArg₂ (· ++ ·) (by simp) (congrArg (s.zipIdx.flatMap ·) (funext fun p => ?_))
  have hshift : x + 8 * ((p.2 + 1 : Nat) : Int) = x + 8 + 8 * p.2 := by omega
  exact congrArg (fun px => glyphPoints font buf px y p.1) hshift

end

def lineX (x : Int) (k : Nat) : Int := if k = 0 then x else 0

/-- `draw_str_fg` for each line, the first one at `(x, y)` and the `k`-th after it at
`(0, y + 16 * k)`. -/
def drawLines (font : Font) (buf : Bitmap) (x y : Int) (color : UInt32)
    (lines : List (List Char)) : Draw Unit :=
  lines.zipIdx.forM fun (line, k) => drawStrFg font buf (lineX x k) (y + 16 * k) color line

def writerAfter (buf : Bitmap) (x y : Int) (lines : List (List Char)) : BitmapTextWriter :=
  ⟨buf, lineX x (lines.length - 1) + 8 * (lines.getLastD []).length,
    y + 16 * (lines.length - 1 : Nat)⟩

/-- Neither a coordinate of a line nor the cursor behind one of its characters leaves `i64`. -/
structure LineFits (x y : Int) (line : List Char) : Prop where
  text : TextFits x y line.length
  cursor : ∀ i ≤ line.length, I64.InRange (x + 8 * i)

def LinesFit (x y : Int) (lines : List (List Char)) : Prop :=
  ∀ line k, lines[k]? = some line → LineFits (lineX x k) (y + 16 * k) line

def linesPoints (font : Font) (buf : Bitmap) (x y : Int) (lines : List (List Char)) :
    List (Int × Int) :=
  lines.zipIdx.flatMap fun (line, k) => textPoints font buf (lineX x k) (y + 16 * k) line

section
variable {font : Font} {buf : Bitmap} {color : UInt32} {x y : Int}

theorem lineX_succ (x : Int) (k : Nat) : lineX x (k + 1) = lineX 0 k := by
  unfold lineX
  rw [if_neg (Nat.succ_ne_zero k), ite_self]

theorem linesPoints_cons (line : List Char) (lines : List (List Char)) :
    linesPoints font buf x y (line :: lines) =
      textPoints font buf x y line ++ linesPoints font buf 0 (y + 16) lines := by
  rw [linesPoints, List.zipIdx_cons', List.flatMap_cons, List.flatMap_map]
  refine congrArg₂ (· ++ ·) (by simp [lineX]) (congrArg (lines.zipIdx.flatMap ·)
    (funext fun p => ?_))
  have hshift : y + 16 * ((p.2 + 1 : Nat) : Int) = y + 16 + 16 * p.2 := by omega
  exact congrArg₂ (fun px py => textPoints font buf px py p.1) (lineX_succ x p.2) hshift

theorem linesFit_cons {line : List Char} {lines : List (List Char)} :
    LinesFit x y (line :: lines) ↔ LineFits x y line ∧ LinesFit 0 (y + 16) lines := by
  have hshift : ∀ k : Nat, y + 16 * ((k + 1 : Nat) : Int) = y + 16 + 16 * k := fun k => by omega
  constructor
  · intro h
    refine ⟨by simpa [lineX] using h line 0 rfl, fun line k hk => ?_⟩
    rw [← lineX_succ x, ← hshift]
    exact h line (k + 1) hk
  · rintro ⟨hline, hlines⟩ line' k hk
    cases k with
    | zero =>
      cases hk
      simpa [lineX] using hline
    | succ k =>
      rw [lineX_succ, hshift]
      exact hlines line' k hk

theorem drawLines_ok (h : LinesFit x y lines) (s : Screen) :
    drawLines font buf x y color lines s =
      .ok () (buf.paint color (linesPoints font buf x y lines) s) :=
  Bitmap.forM_paint _ _ (fun p hmem s =>
    drawStrFg_ok (h p.1 p.2 (List.mem_zipIdx_iff_getElem?.1 hmem)).text s) s

theorem LineFits.tail (h : LineFits x y (c :: line)) : LineFits (x + 8) y line := by
  obtain ⟨⟨hoffsets, hcolumns, hrows⟩, hcursor⟩ := h
  refine ⟨⟨fun i hi => ?_, fun i hi dx => ?_, hrows⟩, fun i hi => ?_⟩
  · obtain ⟨hlo, hhi⟩ := hoffsets (i + 1) (Nat.succ_lt_succ hi)
    exact ⟨by omega, by omega⟩
  · obtain ⟨hlo, hhi⟩ := hcolumns (i + 1) (Nat.succ_lt_succ hi) dx
    exact ⟨by omega, by omega⟩
  · obtain ⟨hlo, hhi⟩ := hcursor (i + 1) (Nat.succ_le_succ hi)
    exact ⟨by omega, by omega⟩

theorem LineFits.head (h : LineFits x y (c :: line)) (s : Screen) :
    drawFontFg font buf x y color c s =
      .ok () (buf.paint color (glyphPoints font buf x y c) s) :=
  drawFontFg_ok (fun dx => by simpa using h.text.columns 0 (Nat.succ_pos _) dx) h.text.rows s

theorem writeChar_newline (hy : I64.InRange (y + 16)) (s : Screen) :
    BitmapTextWriter.writeChar font ⟨buf, x, y⟩ '\n' s = .ok ⟨buf, 0, y + 16⟩ s := by
  rw [BitmapTextWriter.writeChar, if_pos rfl, ofExcept_bind (I64.add_ok hy)]
  rfl

theorem writeChar_glyph (hc : c ≠ '\n') (h : LineFits x y (c :: line)) (s : Screen) :
    BitmapTextWriter.writeChar font ⟨buf, x, y⟩ c s =
      .ok ⟨buf, x + 8, y⟩ (buf.paint 0xffffff (glyphPoints font buf x y c) s) := by
  have hx : I64.InRange (x + 8) := h.cursor 1 (Nat.succ_le_succ (Nat.zero_le _))
  rw [BitmapTextWriter.writeChar, if_neg hc, bind_of_ok (h.head s), ofExcept_bind (I64.add_ok hx)]
  rfl

theorem writerAfter_singleton (line : List Char) :
    writerAfter buf x y [line] = ⟨buf, x + 8 * line.length, y⟩ :=
  congrArg (BitmapTextWriter.mk buf (x + 8 * line.length)) (by simp)

theorem writerAfter_cons (line next : List Char) (lines : List (List Char)) :
    writerAfter buf x y (line :: next :: lines) = writerAfter buf 0 (y + 16) (next :: lines) := by
  have hy : y + 16 * ((lines.length + 1 : Nat) : Int) = y + 16 + 16 * lines.length := by omega
  have hx : lineX x (lines.length + 1) = lineX 0 lines.length := lineX_succ x _
  exact congrArg₂ (BitmapTextWriter.mk buf)
    (congrArg (· + 8 * (((next :: lines).getLastD []).length : Int)) hx) hy

/-- The writer draws what is drawn line by line. The induction is on the characters: a newline
starts the next line, any other character is the first one of its line. -/
theorem writeStr_ok {s : List Char} (h : LinesFit x y (s.splitOn '\n')) (scr : Screen) :
    BitmapTextWriter.writeStr font ⟨buf, x, y⟩ s scr = .ok (writerAfter buf x y (s.splitOn '\n'))
      (buf.paint 0xffffff (linesPoints font buf x y (s.splitOn '\n')) scr) := by
  induction s generalizing x y scr with
  | nil =>
    rw [List.splitOn_nil, writerAfter_singleton, List.length_nil, Int.natCast_zero, Int.mul_zero,
      Int.add_zero]
    rfl
  | cons c s ih =>
    obtain ⟨line, lines, hlines⟩ := List.exists_cons_of_ne_nil (List.splitOn_ne_nil '\n' s)
    have hstep : ∀ w scr, BitmapTextWriter.writeStr font w (c :: s) scr =
        (BitmapTextWriter.writeChar font w c >>= fun w =>
          BitmapTextWriter.writeStr font w s) scr := fun w scr => by
      rw [BitmapTextWriter.writeStr, List.foldlM_cons]
      rfl
    rw [List.splitOn_cons_eq_if_modifyHead] at h ⊢
    by_cases hc : c = '\n'
    · subst hc
      rw [if_pos (beq_self_eq_true _)] at h ⊢
      obtain ⟨hline, hfit⟩ := linesFit_cons.1 h
      have hy : I64.InRange (y + 16) := by
        rw [hlines] at hfit
        simpa using (linesFit_cons.1 hfit).1.text.rows 0
      rw [hstep, bind_of_ok (writeChar_newline hy scr), ih hfit, linesPoints_cons, hlines,
        writerAfter_cons]
      rfl
    · rw [if_neg (by simpa using hc), hlines, List.modifyHead_cons] at h ⊢
      obtain ⟨hline, hfit⟩ := linesFit_cons.1 h
      have hafter : writerAfter buf x y ((c :: line) :: lines) =
          writerAfter buf (x + 8) y (line :: lines) := by
        cases lines with
        | nil =>
          rw [writerAfter_singleton, writerAfter_singleton, List.length_cons]
          exact congrArg (BitmapTextWriter.mk buf · y) (by omega)
        | cons next lines => rw [writerAfter_cons, writerAfter_cons]
      rw [hlines] at ih
      rw [hstep, bind_of_ok (writeChar_glyph hc hline scr),
        ih (linesFit_cons.2 ⟨hline.tail, hfit⟩), hafter, linesPoints_cons, linesPoints_cons,
        textPoints_cons, Bitmap.paint_append, Bitmap.paint_append, Bitmap.paint_append]

end

/-- A text is drawn as far as it is visible. -/
def DrawsText (font : Font) (buf : Bitmap) (x y : Int) (color : UInt32) (s : List Char)
    (scr : Screen) : Prop :=
  ∃ scr', drawStrFg font buf x y color s scr = .ok () scr' ∧
    buf.Painted color (fun px py => buf.Visible px py ∧ Inked font x y s px py) scr scr'

/-- Writing a text ends as drawing its lines does, with the cursor behind the last character. -/
def WritesLines (font : Font) (buf : Bitmap) (cx cy : Int) (s : List Char) (scr : Screen) : Prop :=
  ∃ scr', drawLines font buf cx cy 0xffffff (s.splitOn '\n') scr = .ok () scr' ∧
    BitmapTextWriter.writeStr font ⟨buf, cx, cy⟩ s scr =
      .ok (writerAfter buf cx cy (s.splitOn '\n')) scr'

theorem text_clipped_and_agrees (font : Font) (buf : Bitmap) (s : List Char) (scr : Screen)
    (x y : Int) (color : UInt32) (hfits : TextFits x y s.length)
    (cx cy : Int) (hlines : LinesFit cx cy (s.splitOn '\n')) :
    DrawsText font buf x y color s scr ∧ WritesLines font buf cx cy s scr :=
  ⟨⟨_, drawStrFg_ok hfits scr, Bitmap.paint_painted _ (fun _ _ h => h.1)
    fun _ _ => mem_textPoints⟩, _, drawLines_ok hlines scr, writeStr_ok hlines scr⟩

theorem text_clipped_and_agrees_two_lines :
    DrawsText (fun _ => stars) smallBitmap (-3) 1 0xff0000 ['A', '\n', 'B'] ⟨fun _ => 0, []⟩ ∧
      WritesLines (fun _ => stars) smallBitmap (-3) (-15) ['A', '\n', 'B'] ⟨fun _ => 0, []⟩ :=
  text_clipped_and_agrees _ _ _ _ (-3) 1 0xff0000 ⟨by decide, by decide, by decide⟩ (-3) (-15)
    (linesFit_cons.2 ⟨⟨⟨by decide, by decide, by decide⟩, by decide⟩,
      linesFit_cons.2 ⟨⟨⟨by decide, by decide, by decide⟩, by decide⟩, fun _ _ h => by cases h⟩⟩)

end Wasabi
