import Wasabi.I64
import Wasabi.LastOf

namespace Wasabi
set_option autoImplicit true

def modifyAt (f : α → β → α) (g : Fin n → α) (p : β × Nat) : Fin n → α :=
  if h : p.2 < n then Function.update g ⟨p.2, h⟩ (f (g ⟨p.2, h⟩) p.1) else g

theorem modifyAt_apply (f : α → β → α) (g : Fin n → α) (b : β) (k : Nat) (i : Fin n) :
    modifyAt f g (b, k) i = if i.val = k then f (g i) b else g i := by
  unfold modifyAt
  split
  · next hk =>
    split
    · next heq =>
      obtain rfl : i = ⟨k, hk⟩ := Fin.ext heq
      exact Function.update_self _ _ _
    · next hne => exact Function.update_of_ne (fun heq => hne (congrArg Fin.val heq)) _ _
  · next hk =>
    dsimp only at hk
    rw [if_neg (by omega)]

def modifyEach (f : α → β → α) (bs : List β) (g : Fin n → α) : Fin n → α :=
  bs.zipIdx.foldl (modifyAt f) g

theorem modifyEach_from (f : α → β → α) (bs : List β) (g : Fin n → α) (k : Nat) (i : Fin n) :
    (bs.zipIdx k).foldl (modifyAt f) g i =
      if k ≤ i then (bs[i.val - k]?).elim (g i) (f (g i)) else g i := by
  induction bs generalizing g k with
  | nil => exact (ite_self _).symm
  | cons b bs ih =>
    rw [List.zipIdx_cons, List.foldl_cons, ih, modifyAt_apply]
    rcases lt_trichotomy k i.val with hlt | rfl | hgt
    · have hsub : i.val - k = i.val - (k + 1) + 1 := by omega
      rw [if_pos (by omega), if_neg (by omega), if_pos (by omega), hsub, List.getElem?_cons_succ]
    · rw [if_neg (by omega), if_pos rfl, if_pos (Nat.le_refl _), Nat.sub_self]
      rfl
    · rw [if_neg (by omega), if_neg (by omega), if_neg (by omega)]

theorem modifyEach_apply (f : α → β → α) (bs : List β) (g : Fin n → α) (i : Fin n) :
    modifyEach f bs g i = (bs[i.val]?).elim (g i) (f (g i)) :=
  (modifyEach_from f bs g 0 i).trans (if_pos (Nat.zero_le _))

theorem modifyEach_ofFn (f : α → β → α) (b : Fin n → β) (g : Fin n → α) :
    modifyEach f (List.ofFn b) g = fun i => f (g i) (b i) := by
  funext i
  rw [modifyEach_apply, List.getElem?_ofFn, dif_pos i.isLt]
  rfl

abbrev Glyph := Fin 16 → Fin 8 → Char

abbrev Font := Fin 256 → Glyph

def stars : Glyph := fun _ _ => '*'

def toDigit (c : Char) : Option Nat :=
  if '0' ≤ c ∧ c ≤ '9' then some (c.toNat - '0'.toNat)
  else if 'a' ≤ c ∧ c ≤ 'f' then some (c.toNat - 'a'.toNat + 10)
  else if 'A' ≤ c ∧ c ≤ 'F' then some (c.toNat - 'A'.toNat + 10)
  else none

def checkedI8 (n : Int) : Option Int := if -128 ≤ n ∧ n ≤ 127 then some n else none

def pushDigit (sign acc : Int) (c : Char) : Option Int := do
  let acc ← checkedI8 (acc * 16)
  let digit ← toDigit c
  checkedI8 (acc + sign * digit)

def fromStrRadixI8 : List Char → Option Int
  | [] => none
  | ['+'] => none
  | ['-'] => none
  | '+' :: digits => digits.foldlM (pushDigit 1) 0
  | '-' :: digits => digits.foldlM (pushDigit (-1)) 0
  | digits => digits.foldlM (pushDigit 1) 0

/-- The number in a line that starts a glyph. -/
def glyphIndex (line : List Char) : Option Int := do
  let digits ← ['0', 'x'].isPrefixOf? line
  fromStrRadixI8 digits

def readGlyph (lines : List (List Char)) : Glyph :=
  modifyEach (fun row line => modifyEach (fun _ c => c) line row) (lines.take 16) stars

/-- The loop over the lines of the font source; the lines of a glyph are visited as well. -/
def readFont (font : Font) : List (List Char) → Except Fault Font
  | [] => .ok font
  | line :: lines =>
    match glyphIndex line with
    | none => readFont font lines
    | some idx =>
      if h : I64.asUsize idx < 256 then
        readFont (Function.update font ⟨I64.asUsize idx, h⟩ (readGlyph lines)) lines
      else .error .outOfBounds

/-- The glyph of a character, which has to fit in a `u8`. -/
def lookupGlyph (font : Font) (c : Char) : Option Glyph :=
  if h : c.toNat < 256 then some (font ⟨c.toNat, h⟩) else none

theorem lookupGlyph_lt (h : lookupGlyph font c = some glyph) : c.toNat < 256 := by
  unfold lookupGlyph at h
  split at h
  · next hlt => exact hlt
  · cases h

def lookupFont (fontSource : String) (c : Char) : Except Fault (Option Glyph) := do
  if c.toNat < 256 then
    let font ← readFont (fun _ => stars) (fontSource.toList.splitOn '\n')
    return lookupGlyph font c
  else return none

structure HexDigit where
  char : Char
  value : Fin 16
  value_eq : toDigit char = some value.val

structure BlankLine where
  line : List Char
  blank : ∀ c ∈ line, c.isWhitespace ∧ c ≠ '\n'

/-- A glyph in a font source, with the blank lines behind it. -/
structure Section where
  hi : HexDigit
  lo : HexDigit
  rows : Glyph
  one_line : ∀ y x, rows y x ≠ '\n'
  no_start : ∀ y, ¬(rows y 0 = '0' ∧ rows y 1 = 'x')
  blanks : List BlankLine

namespace Section

def code (sec : Section) : Fin 256 := ⟨16 * sec.hi.value + sec.lo.value, by omega⟩

def lines (sec : Section) : List (List Char) :=
  ['0', 'x', sec.hi.char, sec.lo.char] :: ((List.ofFn fun y => List.ofFn (sec.rows y)) ++
    sec.blanks.map BlankLine.line)

def rowsOf (code : Fin 256) (sec : Section) : Option Glyph :=
  if sec.code = code then some sec.rows else none

end Section

structure FontText where
  blanks : List BlankLine
  sections : List Section

namespace FontText

def lines (t : FontText) : List (List Char) :=
  t.blanks.map BlankLine.line ++ t.sections.flatMap Section.lines

def text (t : FontText) : String := String.ofList (['\n'].intercalate t.lines)

def rowsOf (t : FontText) (code : Fin 256) : Option Glyph := lastOf (Section.rowsOf code) t.sections

end FontText

theorem HexDigit.ne (digit : HexDigit) (h : toDigit c = none) : digit.char ≠ c := by
  rintro rfl
  exact absurd (digit.value_eq.symm.trans h) (Option.some_ne_none _)

theorem pushDigit_eq (digit : HexDigit) {acc : Int} (hacc : 0 ≤ acc) :
    pushDigit 1 acc digit.char =
      if acc * 16 + digit.value ≤ 127 then some (acc * 16 + digit.value) else none := by
  unfold pushDigit checkedI8
  rw [digit.value_eq]
  by_cases hmul : acc * 16 ≤ 127
  · rw [if_pos (by omega), Option.bind_eq_bind, Option.bind_some, Option.bind_eq_bind,
      Option.bind_some, Int.one_mul]
    by_cases hadd : acc * 16 + digit.value ≤ 127
    · rw [if_pos (by omega), if_pos hadd]
    · rw [if_neg (by omega), if_neg hadd]
  · rw [if_neg (by omega), if_neg (by omega)]
    rfl

theorem fromStrRadixI8_pair (hi lo : HexDigit) : fromStrRadixI8 [hi.char, lo.char] =
    if 16 * hi.value.val + lo.value.val < 128
      then some ((16 * hi.value.val + lo.value.val : Nat) : Int) else none := by
  have hplus := hi.ne (show toDigit '+' = none by decide)
  have hminus := hi.ne (show toDigit '-' = none by decide)
  have hdigits : fromStrRadixI8 [hi.char, lo.char] =
      (pushDigit 1 0 hi.char).bind fun acc => pushDigit 1 acc lo.char := by
    rw [fromStrRadixI8]
    · rw [List.foldlM_cons]
      refine congrArg (Option.bind _) (funext fun acc => ?_)
      rw [List.foldlM_cons]
      exact Option.bind_fun_some _
    · exact fun h => List.cons_ne_nil _ _ h
    · exact fun h => hplus (List.head_eq_of_cons_eq h)
    · exact fun h => hminus (List.head_eq_of_cons_eq h)
    · exact fun _ h => hplus (List.head_eq_of_cons_eq h)
    · exact fun _ h => hminus (List.head_eq_of_cons_eq h)
  rw [hdigits, pushDigit_eq hi (Int.le_refl 0), if_pos (by omega), Option.bind_some,
    pushDigit_eq lo (by omega)]
  split
  · rw [if_pos (by omega)]
    exact congrArg some (by omega)
  · rw [if_neg (by omega)]

theorem glyphIndex_cons_cons (a b : Char) (line : List Char) : glyphIndex (a :: b :: line) =
    if a = '0' ∧ b = 'x' then fromStrRadixI8 line else none := by
  unfold glyphIndex
  split
  · next h =>
    obtain ⟨rfl, rfl⟩ := h
    rfl
  · next h =>
    have hnone : ['0', 'x'].isPrefixOf? (a :: b :: line) = none := by
      simp only [List.isPrefixOf?, beq_iff_eq, ite_eq_right_iff]
      rintro rfl rfl
      exact absurd ⟨rfl, rfl⟩ h
    rw [hnone]
    rfl

theorem BlankLine.glyphIndex (b : BlankLine) : glyphIndex b.line = none := by
  obtain ⟨line, hblank⟩ := b
  cases line with
  | nil => rfl
  | cons c line =>
    have hne : c ≠ '0' := by
      rintro rfl
      exact absurd (hblank '0' List.mem_cons_self).1 (by decide)
    cases line with
    | nil =>
      simp only [Wasabi.glyphIndex, List.isPrefixOf?, beq_iff_eq]
      rw [if_neg hne.symm]
      rfl
    | cons d line => rw [glyphIndex_cons_cons, if_neg fun h => hne h.1]

namespace Section

variable (sec : Section)

theorem glyphIndex_row (y : Fin 16) : glyphIndex (List.ofFn (sec.rows y)) = none := by
  rw [List.ofFn_succ, List.ofFn_succ, glyphIndex_cons_cons]
  exact if_neg (sec.no_start y)

theorem glyphIndex_header : glyphIndex ['0', 'x', sec.hi.char, sec.lo.char] =
    if sec.code.val < 128 then some (sec.code.val : Int) else none := by
  rw [glyphIndex_cons_cons, if_pos ⟨rfl, rfl⟩]
  exact fromStrRadixI8_pair sec.hi sec.lo

end Section

theorem readFont_skip (h : ∀ line ∈ lines, glyphIndex line = none) :
    readFont font (lines ++ rest) = readFont font rest := by
  induction lines with
  | nil => rfl
  | cons line lines ih =>
    obtain ⟨hline, hlines⟩ := List.forall_mem_cons.1 h
    rw [List.cons_append, readFont, hline]
    exact ih hlines

theorem readGlyph_rows (rows : Glyph) (rest : List (List Char)) :
    readGlyph ((List.ofFn fun y => List.ofFn (rows y)) ++ rest) = rows := by
  rw [readGlyph, List.take_left' (List.length_ofFn), modifyEach_ofFn]
  funext y
  exact modifyEach_ofFn _ _ _

/-- A section whose code fits in an `i8` sets its rows, any other one is passed over. -/
theorem readFont_section (sec : Section) (font : Font) (rest : List (List Char)) :
    readFont font (sec.lines ++ rest) =
      readFont (if sec.code.val < 128 then Function.update font sec.code sec.rows else font)
        rest := by
  have hbody : ∀ line ∈ (List.ofFn fun y => List.ofFn (sec.rows y)) ++
      sec.blanks.map BlankLine.line, glyphIndex line = none := by
    intro line hmem
    rcases List.mem_append.1 hmem with hrow | hblank
    · obtain ⟨y, rfl⟩ := List.mem_ofFn.1 hrow
      exact sec.glyphIndex_row y
    · obtain ⟨b, _, rfl⟩ := List.mem_map.1 hblank
      exact b.glyphIndex
  rw [Section.lines, List.cons_append, readFont, sec.glyphIndex_header]
  by_cases hcode : sec.code.val < 128
  · have hidx : I64.asUsize (sec.code.val : Int) = sec.code.val :=
      I64.asUsize_eq (by omega) (by omega)
    have hlt : I64.asUsize (sec.code.val : Int) < 256 := by omega
    have hfin : (⟨I64.asUsize (sec.code.val : Int), hlt⟩ : Fin 256) = sec.code := Fin.ext hidx
    have hglyph := readGlyph_rows sec.rows (sec.blanks.map BlankLine.line ++ rest)
    rw [← List.append_assoc] at hglyph
    rw [if_pos hcode, if_pos hcode]
    dsimp only
    rw [dif_pos hlt, hfin, hglyph]
    exact readFont_skip hbody
  · rw [if_neg hcode, if_neg hcode]
    exact readFont_skip hbody

theorem readFont_sections (sections : List Section) (font : Font) :
    readFont font (sections.flatMap Section.lines) = .ok fun code =>
      if code.val < 128 then (lastOf (Section.rowsOf code) sections).getD (font code)
      else font code := by
  induction sections generalizing font with
  | nil => exact congrArg Except.ok (funext fun code => (ite_self _).symm)
  | cons sec sections ih =>
    rw [List.flatMap_cons, readFont_section, ih]
    refine congrArg Except.ok (funext fun code => ?_)
    rw [lastOf_cons, Section.rowsOf]
    by_cases heq : sec.code = code
    · subst heq
      by_cases hcode : sec.code.val < 128
      · rw [if_pos hcode, if_pos hcode, if_pos hcode, if_pos rfl, Function.update_self]
        cases lastOf (Section.rowsOf sec.code) sections <;> rfl
      · rw [if_neg hcode, if_neg hcode, if_neg hcode]
    · have hfont : (if sec.code.val < 128 then Function.update font sec.code sec.rows
          else font) code = font code := by
        split
        · exact Function.update_of_ne (Ne.symm heq) _ _
        · rfl
      rw [if_neg heq, Option.or_none, hfont]

namespace FontText

variable (t : FontText)

theorem one_line (hmem : line ∈ t.lines) : '\n' ∉ line := by
  have hblank : ∀ b : BlankLine, '\n' ∉ b.line := fun b h => (b.blank _ h).2 rfl
  rcases List.mem_append.1 hmem with h | h
  · obtain ⟨b, _, rfl⟩ := List.mem_map.1 h
    exact hblank b
  · obtain ⟨sec, _, h⟩ := List.mem_flatMap.1 h
    rcases List.mem_cons.1 h with rfl | h
    · have hdigit : ∀ digit : HexDigit, '\n' ≠ digit.char := fun digit =>
        (digit.ne (show toDigit '\n' = none by decide)).symm
      simp only [List.mem_cons, List.not_mem_nil, hdigit, or_false]
      decide
    · rcases List.mem_append.1 h with h | h
      · obtain ⟨y, rfl⟩ := List.mem_ofFn.1 h
        rw [List.mem_ofFn]
        rintro ⟨x, hx⟩
        exact sec.one_line y x hx
      · obtain ⟨b, _, rfl⟩ := List.mem_map.1 h
        exact hblank b

theorem readFont_text (font : Font) :
    readFont font (t.text.toList.splitOn '\n') = readFont font t.lines := by
  rw [text, String.toList_ofList]
  cases hlines : t.lines with
  | nil => rfl
  | cons line lines =>
    rw [List.splitOn_intercalate '\n' (fun l hl => t.one_line (hlines ▸ hl)) (List.cons_ne_nil _ _)]

theorem readFont_eq : readFont (fun _ => stars) (t.text.toList.splitOn '\n') = .ok fun code =>
    if code.val < 128 then (t.rowsOf code).getD stars else stars := by
  have hblanks : ∀ line ∈ t.blanks.map BlankLine.line, glyphIndex line = none := by
    intro line hmem
    obtain ⟨b, _, rfl⟩ := List.mem_map.1 hmem
    exact b.glyphIndex
  rw [t.readFont_text, lines, readFont_skip hblanks, readFont_sections]
  rfl

theorem lookupFont_eq (h : c.toNat < 256) : lookupFont t.text c = .ok (some
    (if c.toNat < 128 then (t.rowsOf ⟨c.toNat, h⟩).getD stars else stars)) := by
  rw [lookupFont, if_pos h, t.readFont_eq, ok_bind, lookupGlyph, dif_pos h]
  rfl

end FontText

/-- Every character up to U+00FF has the rows of its last section, or the default when it has no
section, and no other character has a glyph. -/
structure HonoursSections (t : FontText) : Prop where
  upto : ∀ c (h : c.toNat < 256),
    lookupFont t.text c = .ok (some ((t.rowsOf ⟨c.toNat, h⟩).getD stars))
  above : ∀ c, 256 ≤ c.toNat → lookupFont t.text c = .ok none

/-- The codes from 0x80 on do not fit in an `i8`, so their sections are lost. -/
theorem font_honours_sections_iff (t : FontText) : HonoursSections t ↔
    ∀ code : Fin 256, 0x80 ≤ code.val → ∀ rows, t.rowsOf code = some rows → rows = stars := by
  constructor
  · intro h code hcode rows hrows
    have hchar : (Char.ofNat code).toNat = code := by
      rw [Char.ofNat, dif_pos (.inl (by omega))]
      rfl
    have hupto := h.upto (Char.ofNat code) (by omega)
    have hfin : (⟨(Char.ofNat code).toNat, by omega⟩ : Fin 256) = code := Fin.ext hchar
    rw [t.lookupFont_eq (by omega), if_neg (by omega), hfin, hrows] at hupto
    exact (Option.some.inj (Except.ok.inj hupto)).symm
  · intro h
    refine ⟨fun c hc => ?_, fun c hc => ?_⟩
    · rw [t.lookupFont_eq hc]
      split
      · rfl
      · next hhigh =>
        cases hrows : t.rowsOf ⟨c.toNat, hc⟩ with
        | none => rfl
        | some rows => rw [h _ (Nat.not_lt.1 hhigh) rows hrows]; rfl
    · rw [lookupFont, if_neg (by omega)]
      rfl

def dottedSection : Section :=
  ⟨⟨'8', 8, by decide⟩, ⟨'0', 0, by decide⟩, fun _ _ => '.', by decide, by decide, []⟩

theorem font_loses_section : ¬HonoursSections ⟨[], [dottedSection]⟩ := by
  intro h
  have hupto := h.upto '\x80' (by decide)
  rw [FontText.lookupFont_eq _ (by decide), if_neg (by decide)] at hupto
  have hglyph := Option.some.inj (Except.ok.inj hupto)
  exact absurd (congrFun (congrFun hglyph 0) 0) (by decide)

end Wasabi
