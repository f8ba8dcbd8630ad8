import Mathlib.Data.List.Count

namespace Wasabi
set_option autoImplicit true

def replacementChar : Char := '\uFFFD'

def decodeUtf8 : List UInt8 → Char
  | [a, b] => Char.ofNat (a.toNat % 32 * 64 + b.toNat % 64)
  | [a, b, c] => Char.ofNat ((a.toNat % 16 * 64 + b.toNat % 64) * 64 + c.toNat % 64)
  | [a, b, c, d] =>
    Char.ofNat (((a.toNat % 8 * 64 + b.toNat % 64) * 64 + c.toNat % 64) * 64 + d.toNat % 64)
  | _ => replacementChar

/-- A decoder of UTF-8 between two bytes: between characters, or inside one, whose bytes so far are
`pending`; the next byte is to lie between `low` and `high`, and `rest` more are to follow it. -/
inductive Utf8Decoder where
  | start
  | more (pending : List UInt8) (low high : UInt8) (rest : Nat)

namespace Utf8Decoder

/-- The first byte of a character; it decides how the character goes on. -/
def first (a : UInt8) : List Char × Utf8Decoder :=
  if a < 0x80 then ([Char.ofNat a.toNat], .start)
  else if 0xC2 ≤ a ∧ a ≤ 0xDF then ([], .more [a] 0x80 0xBF 0)
  else if a = 0xE0 then ([], .more [a] 0xA0 0xBF 1)
  else if a = 0xED then ([], .more [a] 0x80 0x9F 1)
  else if 0xE1 ≤ a ∧ a ≤ 0xEF then ([], .more [a] 0x80 0xBF 1)
  else if a = 0xF0 then ([], .more [a] 0x90 0xBF 2)
  else if a = 0xF4 then ([], .more [a] 0x80 0x8F 2)
  else if 0xF1 ≤ a ∧ a ≤ 0xF3 then ([], .more [a] 0x80 0xBF 2)
  else ([replacementChar], .start)

def next (pending : List UInt8) : Nat → List Char × Utf8Decoder
  | 0 => ([decodeUtf8 pending], .start)
  | rest + 1 => ([], .more pending 0x80 0xBF rest)

/-- The characters that a byte completes. One that breaks a character off is read again. -/
def step : Utf8Decoder → UInt8 → List Char × Utf8Decoder
  | .start, b => first b
  | .more pending low high rest, b =>
    if low ≤ b ∧ b ≤ high then next (pending ++ [b]) rest
    else (replacementChar :: (first b).1, (first b).2)

def run : Utf8Decoder → List UInt8 → List Char
  | .start, [] => []
  | .more .., [] => [replacementChar]
  | this, b :: bs => (this.step b).1 ++ run (this.step b).2 bs

end Utf8Decoder

/-- `String::from_utf8_lossy`: each longest start of a character that is broken off, and each byte
that cannot start one, becomes one replacement character. -/
def fromUtf8Lossy (bs : List UInt8) : List Char := Utf8Decoder.start.run bs

example : fromUtf8Lossy [0x41, 0xE4, 0xBA, 0x42, 0xC3, 0xA9, 0xED, 0xA0, 0x80] =
    ['A', '\uFFFD', 'B', 'é', '\uFFFD', '\uFFFD', '\uFFFD'] := by decide

section
variable {a b c d : UInt8}

theorem toNat_ofNat_char (h : n.isValidChar) : (Char.ofNat n).toNat = n := by
  rw [Char.ofNat, dif_pos h]
  rfl

theorem ofNat_eq_byte (h : n = a.toNat) : UInt8.ofNat n = a := by
  rw [h, UInt8.ofNat_toNat]

theorem encode_two (ha : 0xC2 ≤ a ∧ a ≤ 0xDF) (hb : 0x80 ≤ b ∧ b ≤ 0xBF) :
    String.utf8EncodeChar (decodeUtf8 [a, b]) = [a, b] := by
  simp only [UInt8.le_iff_toNat_le, UInt8.reduceToNat] at ha hb
  have hv : (decodeUtf8 [a, b]).val.toNat = a.toNat % 32 * 64 + b.toNat % 64 :=
    toNat_ofNat_char (.inl (by omega))
  rw [String.utf8EncodeChar, hv, if_neg (by omega), if_pos (by omega),
    ofNat_eq_byte (a := a) (by omega), ofNat_eq_byte (a := b) (by omega)]

theorem encode_three (ha : 0xE0 ≤ a ∧ a ≤ 0xEF) (hb : 0x80 ≤ b ∧ b ≤ 0xBF)
    (he0 : a = 0xE0 → 0xA0 ≤ b) (hed : a = 0xED → b ≤ 0x9F) (hc : 0x80 ≤ c ∧ c ≤ 0xBF) :
    String.utf8EncodeChar (decodeUtf8 [a, b, c]) = [a, b, c] := by
  simp only [UInt8.le_iff_toNat_le, UInt8.reduceToNat, ← UInt8.toNat_inj] at ha hb he0 hed hc
  have hv : (decodeUtf8 [a, b, c]).val.toNat =
      (a.toNat % 16 * 64 + b.toNat % 64) * 64 + c.toNat % 64 :=
    toNat_ofNat_char (by unfold Nat.isValidChar; omega)
  rw [String.utf8EncodeChar, hv, if_neg (by omega), if_neg (by omega), if_pos (by omega),
    ofNat_eq_byte (a := a) (by omega), ofNat_eq_byte (a := b) (by omega),
    ofNat_eq_byte (a := c) (by omega)]

theorem encode_four (ha : 0xF0 ≤ a ∧ a ≤ 0xF4) (hb : 0x80 ≤ b ∧ b ≤ 0xBF)
    (hf0 : a = 0xF0 → 0x90 ≤ b) (hf4 : a = 0xF4 → b ≤ 0x8F) (hc : 0x80 ≤ c ∧ c ≤ 0xBF)
    (hd : 0x80 ≤ d ∧ d ≤ 0xBF) :
    String.utf8EncodeChar (decodeUtf8 [a, b, c, d]) = [a, b, c, d] := by
  simp only [UInt8.le_iff_toNat_le, UInt8.reduceToNat, ← UInt8.toNat_inj] at ha hb hf0 hf4 hc hd
  have hv : (decodeUtf8 [a, b, c, d]).val.toNat =
      ((a.toNat % 8 * 64 + b.toNat % 64) * 64 + c.toNat % 64) * 64 + d.toNat % 64 :=
    toNat_ofNat_char (by unfold Nat.isValidChar; omega)
  rw [String.utf8EncodeChar, hv, if_neg (by omega), if_neg (by omega), if_neg (by omega),
    ofNat_eq_byte (a := a) (by omega), ofNat_eq_byte (a := b) (by omega),
    ofNat_eq_byte (a := c) (by omega), ofNat_eq_byte (a := d) (by omega)]

theorem encode_one (ha : a < 0x80) : String.utf8EncodeChar (Char.ofNat a.toNat) = [a] := by
  simp only [UInt8.lt_iff_toNat_lt, UInt8.reduceToNat] at ha
  have hv : (Char.ofNat a.toNat).val.toNat = a.toNat := toNat_ofNat_char (.inl (by omega))
  rw [String.utf8EncodeChar, hv, if_pos (by omega), UInt8.ofNat_toNat]

end

namespace Utf8Decoder

def Completes (pending : List UInt8) (low high : UInt8) : Nat → Prop
  | 0 => ∀ b, low ≤ b ∧ b ≤ high →
    String.utf8EncodeChar (decodeUtf8 (pending ++ [b])) = pending ++ [b]
  | rest + 1 => ∀ b, low ≤ b ∧ b ≤ high → Completes (pending ++ [b]) 0x80 0xBF rest

def Good : Utf8Decoder → Prop
  | .start => True
  | .more pending low high rest => high ≤ 0xBF ∧ Completes pending low high rest

/-- The bytes read that no character stands for yet. -/
def unread : Utf8Decoder → List UInt8
  | .start => []
  | .more pending _ _ _ => pending

theorem first_cases (a : UInt8) :
    (a < 0x80 ∧ first a = ([Char.ofNat a.toNat], .start)) ∨
      (a ≤ 0xF4 ∧ ∃ low high rest, first a = ([], .more [a] low high rest) ∧
        (Utf8Decoder.more [a] low high rest).Good) ∨
      first a = ([replacementChar], .start) := by
  unfold first
  split
  · next h => exact .inl ⟨h, rfl⟩
  right
  split
  · next h =>
    exact .inl ⟨UInt8.le_trans h.2 (by decide), _, _, _, rfl, by decide,
      fun b hb => encode_two h hb⟩
  split
  · next h =>
    subst h
    exact .inl ⟨by decide, _, _, _, rfl, by decide, fun b hb c hc => encode_three (by decide)
      ⟨UInt8.le_trans (by decide) hb.1, hb.2⟩ (fun _ => hb.1) (fun he => absurd he (by decide)) hc⟩
  next he0 =>
  split
  · next h =>
    subst h
    exact .inl ⟨by decide, _, _, _, rfl, by decide, fun b hb c hc => encode_three (by decide)
      ⟨hb.1, UInt8.le_trans hb.2 (by decide)⟩ (fun he => absurd he he0) (fun _ => hb.2) hc⟩
  next hed =>
  split
  · next h =>
    exact .inl ⟨UInt8.le_trans h.2 (by decide), _, _, _, rfl, by decide, fun b hb c hc =>
      encode_three ⟨UInt8.le_trans (by decide) h.1, h.2⟩ hb (fun he => absurd he he0)
        (fun he => absurd he hed) hc⟩
  split
  · next h =>
    subst h
    exact .inl ⟨by decide, _, _, _, rfl, by decide, fun b hb c hc d hd => encode_four (by decide)
      ⟨UInt8.le_trans (by decide) hb.1, hb.2⟩ (fun _ => hb.1) (fun he => absurd he (by decide))
      hc hd⟩
  next hf0 =>
  split
  · next h =>
    subst h
    exact .inl ⟨by decide, _, _, _, rfl, by decide, fun b hb c hc d hd => encode_four (by decide)
      ⟨hb.1, UInt8.le_trans hb.2 (by decide)⟩ (fun he => absurd he hf0) (fun _ => hb.2) hc hd⟩
  next hf4 =>
  split
  · next h =>
    exact .inl ⟨UInt8.le_trans h.2 (by decide), _, _, _, rfl, by decide, fun b hb c hc d hd =>
      encode_four ⟨UInt8.le_trans (by decide) h.1, UInt8.le_trans h.2 (by decide)⟩ hb
        (fun he => absurd he hf0) (fun he => absurd he hf4) hc hd⟩
  · exact .inr rfl

theorem good_start : start.Good := trivial

theorem good_first (a : UInt8) : (first a).2.Good := by
  obtain ⟨_, h⟩ | ⟨_, low, high, rest, h, hgood⟩ | h := first_cases a
  · exact h ▸ trivial
  · exact h ▸ hgood
  · exact h ▸ trivial

theorem Good.step {this : Utf8Decoder} (h : this.Good) (b : UInt8) : (this.step b).2.Good := by
  cases this with
  | start => exact good_first b
  | more pending low high rest =>
    rw [Utf8Decoder.step]
    split
    · next hb =>
      cases rest with
      | zero => trivial
      | succ rest => exact ⟨by decide, h.2 b hb⟩
    · exact good_first b

/-- Without a replacement character the bytes read are those of the characters so far and those of
the character that is being read. -/
theorem first_encode (a : UInt8) (h : replacementChar ∉ (first a).1) :
    (first a).1.flatMap String.utf8EncodeChar ++ (first a).2.unread = [a] := by
  obtain ⟨ha, hfirst⟩ | ⟨_, low, high, rest, hfirst, _⟩ | hfirst := first_cases a
  · rw [hfirst, List.flatMap_singleton, encode_one ha]
    rfl
  · rw [hfirst]
    rfl
  · rw [hfirst] at h
    exact absurd (List.mem_singleton.2 rfl) h

theorem step_encode {this : Utf8Decoder} (hgood : this.Good) (b : UInt8)
    (h : replacementChar ∉ (this.step b).1) :
    (this.step b).1.flatMap String.utf8EncodeChar ++ (this.step b).2.unread =
      this.unread ++ [b] := by
  cases this with
  | start => exact first_encode b h
  | more pending low high rest =>
    rw [Utf8Decoder.step] at h ⊢
    split
    · next hb =>
      cases rest with
      | zero =>
        have hchar := hgood.2 b hb
        rw [next, List.flatMap_singleton, hchar]
        exact List.append_nil _
      | succ rest => rfl
    · next hb =>
      rw [if_neg hb] at h
      exact absurd List.mem_cons_self h

theorem run_cons (this : Utf8Decoder) (b : UInt8) (bs : List UInt8) :
    this.run (b :: bs) = (this.step b).1 ++ (this.step b).2.run bs := by
  cases this <;> rfl

theorem run_encode {this : Utf8Decoder} (hgood : this.Good) (bs : List UInt8)
    (h : replacementChar ∉ this.run bs) :
    (this.run bs).flatMap String.utf8EncodeChar = this.unread ++ bs := by
  induction bs generalizing this with
  | nil =>
    cases this with
    | start => rfl
    | more => exact absurd (List.mem_singleton.2 rfl) h
  | cons b bs ih =>
    rw [run_cons, List.mem_append, not_or] at h
    rw [run_cons, List.flatMap_append, ih (hgood.step b) h.2, ← List.append_assoc,
      step_encode hgood b h.1, List.append_assoc, List.singleton_append]

/-- No character has a byte from 0xF5 on. -/
def invalid (b : UInt8) : Bool := 0xF5 ≤ b

theorem first_replaces (a : UInt8) (h : invalid a = true) :
    first a = ([replacementChar], .start) := by
  have hle : 0xF5 ≤ a := of_decide_eq_true h
  obtain ⟨ha, _⟩ | ⟨ha, _⟩ | hfirst := first_cases a
  · exact absurd (UInt8.lt_of_le_of_lt hle ha) (by decide)
  · exact absurd (UInt8.le_trans hle ha) (by decide)
  · exact hfirst

theorem step_replaces {this : Utf8Decoder} (hgood : this.Good) (b : UInt8) :
    [b].countP invalid ≤ (this.step b).1.count replacementChar := by
  by_cases h : invalid b = true
  · have hcount : (first b).1.count replacementChar = 1 := by
      rw [first_replaces b h]
      rfl
    rw [List.countP_singleton, if_pos h]
    cases this with
    | start => exact Nat.le_of_eq hcount.symm
    | more pending low high rest =>
      rw [Utf8Decoder.step, if_neg fun hb => ?_]
      · rw [List.count_cons_self, hcount]
        decide
      · exact absurd (UInt8.le_trans (of_decide_eq_true h) (UInt8.le_trans hb.2 hgood.1))
          (by decide)
  · rw [List.countP_singleton, if_neg h]
    exact Nat.zero_le _

theorem run_replaces {this : Utf8Decoder} (hgood : this.Good) (bs : List UInt8) :
    bs.countP invalid ≤ (this.run bs).count replacementChar := by
  induction bs generalizing this with
  | nil => exact Nat.zero_le _
  | cons b bs ih =>
    have hb := step_replaces hgood b
    have hbs := ih (hgood.step b)
    rw [run_cons, List.count_append, ← List.singleton_append, List.countP_append]
    omega

end Utf8Decoder

/-- Without a replacement character the text encodes to the bytes that it was decoded from. -/
theorem encode_fromUtf8Lossy (bs : List UInt8) (h : replacementChar ∉ fromUtf8Lossy bs) :
    (fromUtf8Lossy bs).flatMap String.utf8EncodeChar = bs :=
  Utf8Decoder.run_encode Utf8Decoder.good_start bs h

theorem countP_invalid_le (bs : List UInt8) :
    bs.countP Utf8Decoder.invalid ≤ (fromUtf8Lossy bs).count replacementChar :=
  Utf8Decoder.run_replaces Utf8Decoder.good_start bs

theorem fromUtf8Lossy_ascii (bs : List UInt8) (h : ∀ b ∈ bs, b < 0x80) :
    fromUtf8Lossy bs = bs.map fun b => Char.ofNat b.toNat := by
  induction bs with
  | nil => rfl
  | cons b bs ih =>
    obtain ⟨hb, hbs⟩ := List.forall_mem_cons.1 h
    have hstep : Utf8Decoder.start.step b = ([Char.ofNat b.toNat], .start) := if_pos hb
    rw [fromUtf8Lossy, Utf8Decoder.run_cons, hstep, List.map_cons, ← ih hbs]
    rfl

end Wasabi
