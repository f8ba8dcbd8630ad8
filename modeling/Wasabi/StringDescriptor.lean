import Wasabi.ControlTransfer
import Wasabi.Utf8
import Mathlib.Algebra.BigOperators.Group.List.Basic

namespace Wasabi
set_option autoImplicit true

/-- `request_string_descriptor`. The buffer of 128 zero bytes is at `ptr`, and `buf` reads it. -/
def requestStringDescriptor {m : Type → Type} [Monad m] [MonadExceptOf Fault m] (xhc : Port m)
    (slot : BitVec 8) (ptr : BitVec 64) (buf : m (List UInt8)) (langId : BitVec 16)
    (index : BitVec 8) : m String := do
  Controller.requestDescriptor xhc slot .string index langId ⟨ptr, 128, 1⟩
  let bytes ← buf
  return String.ofList ((fromUtf8Lossy (bytes.drop 2)).filter (· ≠ '\x00'))

def encodeUtf16 (c : Char) : List Nat :=
  if c.toNat < 0x10000 then [c.toNat]
  else [0xD800 + (c.toNat - 0x10000) / 0x400, 0xDC00 + (c.toNat - 0x10000) % 0x400]

def charUtf16le (c : Char) : List UInt8 :=
  (encodeUtf16 c).flatMap fun u => [UInt8.ofNat u, UInt8.ofNat (u / 256)]

def utf16le (t : List Char) : List UInt8 := t.flatMap charUtf16le

/-- A text that fits into a string descriptor and needs no NUL. -/
structure DescriptorText where
  text : String
  nonNul : '\x00' ∉ text.toList
  fits : (utf16le text.toList).length ≤ 126

/-- The buffer after the device has written its answer over the zeros. -/
def DescriptorText.buffer (t : DescriptorText) : List UInt8 :=
  let answer := UInt8.ofNat (2 + (utf16le t.text.toList).length) :: 3 :: utf16le t.text.toList
  answer ++ (List.replicate 128 0).drop answer.length

/-- A weight of bytes in which every character beyond ASCII weighs more in UTF-8 than in UTF-16. -/
def weight (b : UInt8) : Nat := if b < 0x80 then 0 else if b ≤ 0xBF then 2 else 1

def weightOf (bs : List UInt8) : Nat := (bs.map weight).sum

theorem weightOf_cons (b : UInt8) (bs : List UInt8) : weightOf (b :: bs) = weight b + weightOf bs :=
  List.sum_cons

theorem weightOf_nil : weightOf [] = 0 := rfl

theorem weightOf_append (bs bs' : List UInt8) :
    weightOf (bs ++ bs') = weightOf bs + weightOf bs' := by
  rw [weightOf, List.map_append, List.sum_append]
  rfl

theorem weight_ofNat (h : n < 0x100) :
    weight (UInt8.ofNat n) = if n < 0x80 then 0 else if n ≤ 0xBF then 2 else 1 := by
  simp only [weight, UInt8.lt_iff_toNat_lt, UInt8.le_iff_toNat_le, UInt8.toNat_ofNat',
    UInt8.reduceToNat, Nat.reducePow, Nat.mod_eq_of_lt h]

theorem weight_low (h : n < 0x80) : weight (UInt8.ofNat n) = 0 := by
  rw [weight_ofNat (by omega), if_pos h]

theorem weight_tail (hlo : 0x80 ≤ n) (hhi : n ≤ 0xBF) : weight (UInt8.ofNat n) = 2 := by
  rw [weight_ofNat (by omega), if_neg (by omega), if_pos hhi]

theorem weight_lead (hlo : 0xC0 ≤ n) (hhi : n ≤ 0xFF) : weight (UInt8.ofNat n) = 1 := by
  rw [weight_ofNat (by omega), if_neg (by omega), if_neg (by omega)]

theorem weight_le (b : UInt8) : weight b ≤ 2 := by
  unfold weight
  split
  · exact Nat.zero_le 2
  · split <;> decide

theorem weightOf_ascii (h : c.toNat < 0x80) :
    weightOf (charUtf16le c) = 0 ∧ weightOf (String.utf8EncodeChar c) = 0 := by
  have hlow := weight_low h
  have hdiv : weight (UInt8.ofNat (c.toNat / 256)) = 0 := weight_low (by omega)
  have hval : c.val.toNat = c.toNat := rfl
  constructor
  · rw [charUtf16le, encodeUtf16, if_pos (by omega), List.flatMap_singleton]
    rw [weightOf_cons, weightOf_cons, hlow, hdiv]
    rfl
  · rw [String.utf8EncodeChar, hval, if_pos (by omega)]
    rw [weightOf_cons, hlow]
    rfl

/-- The first byte of a character in UTF-8 weighs 1 and each of the others 2. -/
theorem weightOf_utf8 (h : 0x80 ≤ c.toNat) :
    weightOf (String.utf8EncodeChar c) =
      if c.toNat ≤ 0x7ff then 3 else if c.toNat ≤ 0xffff then 5 else 7 := by
  have hval : c.val.toNat = c.toNat := rfl
  have htail : ∀ n, weight (UInt8.ofNat (n % 0x40 + 0x80)) = 2 := fun n =>
    weight_tail (by omega) (by omega)
  rw [String.utf8EncodeChar, hval, if_neg (by omega)]
  split
  · have hlead : weight (UInt8.ofNat (c.toNat / 64 % 0x20 + 0xc0)) = 1 :=
      weight_lead (by omega) (by omega)
    rw [weightOf_cons, weightOf_cons, hlead, htail]
    rfl
  · split
    · have hlead : weight (UInt8.ofNat (c.toNat / 4096 % 0x10 + 0xe0)) = 1 :=
        weight_lead (by omega) (by omega)
      rw [weightOf_cons, weightOf_cons, weightOf_cons, hlead, htail, htail]
      rfl
    · have hlead : weight (UInt8.ofNat (c.toNat / 262144 % 0x08 + 0xf0)) = 1 :=
        weight_lead (by omega) (by omega)
      rw [weightOf_cons, weightOf_cons, weightOf_cons, weightOf_cons, hlead, htail, htail, htail]
      rfl

theorem weightOf_utf16_lt (h : 0x80 ≤ c.toNat) :
    weightOf (charUtf16le c) < weightOf (String.utf8EncodeChar c) := by
  rw [weightOf_utf8 h, charUtf16le, encodeUtf16]
  split
  · rw [List.flatMap_singleton]
    have hlo := weight_le (UInt8.ofNat c.toNat)
    have hhi := weight_le (UInt8.ofNat (c.toNat / 256))
    have hascii : c.toNat ≤ 0x7ff → weight (UInt8.ofNat (c.toNat / 256)) = 0 := fun hle =>
      weight_low (by omega)
    rw [weightOf_cons, weightOf_cons, weightOf_nil]
    split
    · next hle =>
      have hzero := hascii hle
      omega
    · rw [if_pos (by omega)]
      omega
  · have hmax : c.toNat < 0x110000 := by
      have hvalid : c.toNat < 0xd800 ∨ 0xdfff < c.toNat ∧ c.toNat < 0x110000 := c.valid
      omega
    -- The upper bytes of surrogates lie between 0xD8 and 0xDF.
    have hhigh : weight (UInt8.ofNat ((0xD800 + (c.toNat - 0x10000) / 0x400) / 256)) = 1 :=
      weight_lead (by omega) (by omega)
    have hlow : weight (UInt8.ofNat ((0xDC00 + (c.toNat - 0x10000) % 0x400) / 256)) = 1 :=
      weight_lead (by omega) (by omega)
    have hfirst := weight_le (UInt8.ofNat (0xD800 + (c.toNat - 0x10000) / 0x400))
    have hsecond := weight_le (UInt8.ofNat (0xDC00 + (c.toNat - 0x10000) % 0x400))
    rw [if_neg (by omega), if_neg (by omega)]
    simp only [List.flatMap_cons, List.flatMap_nil, List.append_nil, List.cons_append,
      List.nil_append, weightOf_cons, weightOf_nil, hhigh, hlow]
    omega

/-- Only ASCII weighs as much in UTF-16 as in UTF-8. -/
theorem ascii_of_weightOf (t : List Char) :
    weightOf (utf16le t) ≤ weightOf (t.flatMap String.utf8EncodeChar) ∧
      (weightOf (utf16le t) = weightOf (t.flatMap String.utf8EncodeChar) →
        ∀ c ∈ t, c.toNat < 0x80) := by
  induction t with
  | nil => exact ⟨Nat.le_refl _, fun _ => List.forall_mem_nil _⟩
  | cons c t ih =>
    rw [utf16le, List.flatMap_cons, List.flatMap_cons, weightOf_append, weightOf_append]
    have hle := ih.1
    rw [utf16le] at hle ih
    by_cases hc : c.toNat < 0x80
    · obtain ⟨h16, h8⟩ := weightOf_ascii hc
      refine ⟨by omega, fun he => List.forall_mem_cons.2 ⟨hc, ih.2 (by omega)⟩⟩
    · have hlt := weightOf_utf16_lt (c := c) (by omega)
      refine ⟨by omega, fun he => ?_⟩
      omega

/-- The code units of a replacement character have two bytes that UTF-8 never uses. -/
theorem count_replacementChar_le (t : List Char) :
    2 * t.count replacementChar ≤ (utf16le t).countP Utf8Decoder.invalid := by
  induction t with
  | nil => exact Nat.le_refl 0
  | cons c t ih =>
    rw [utf16le, List.flatMap_cons, List.countP_append]
    rw [utf16le] at ih
    by_cases hc : c = replacementChar
    · subst hc
      have htwo : (charUtf16le replacementChar).countP Utf8Decoder.invalid = 2 := by decide
      rw [List.count_cons_self, htwo]
      omega
    · rw [List.count_cons_of_ne hc]
      omega

theorem weightOf_filter (t : List Char) :
    weightOf ((t.filter (· ≠ '\x00')).flatMap String.utf8EncodeChar) =
      weightOf (t.flatMap String.utf8EncodeChar) := by
  induction t with
  | nil => rfl
  | cons c t ih =>
    rw [List.flatMap_cons, weightOf_append, ← ih]
    by_cases hc : c = '\x00'
    · have hzero : weightOf (String.utf8EncodeChar c) = 0 := (weightOf_ascii (by rw [hc]; decide)).2
      rw [List.filter_cons_of_neg (by simpa using hc), hzero, Nat.zero_add]
    · rw [List.filter_cons_of_pos (by simpa using hc), List.flatMap_cons, weightOf_append]

theorem weightOf_zeros (n : Nat) : weightOf (List.replicate n 0) = 0 := by
  induction n with
  | zero => rfl
  | succ n ih =>
    rw [List.replicate_succ, weightOf_cons, ih]
    rfl

theorem charUtf16le_ascii (h : c.toNat < 0x80) : charUtf16le c = [UInt8.ofNat c.toNat, 0] := by
  have hzero : c.toNat / 256 = 0 := by omega
  rw [charUtf16le, encodeUtf16, if_pos (by omega), List.flatMap_singleton, hzero]
  rfl

theorem utf16le_ascii (t : List Char) (h : ∀ c ∈ t, c.toNat < 0x80) :
    ∀ b ∈ utf16le t, b < 0x80 := by
  intro b hb
  obtain ⟨c, hc, hb⟩ := List.mem_flatMap.1 hb
  rw [charUtf16le_ascii (h c hc), List.mem_pair] at hb
  have hlt := h c hc
  rcases hb with rfl | rfl
  · rw [UInt8.lt_iff_toNat_lt, UInt8.toNat_ofNat', Nat.mod_eq_of_lt (by omega)]
    exact hlt
  · decide

/-- The zeros that ASCII has in UTF-16 are the only bytes that the driver drops. -/
theorem utf16le_ascii_filter (t : List Char) (h : ∀ c ∈ t, c.toNat < 0x80) (hnul : '\x00' ∉ t) :
    ((utf16le t).map fun b => Char.ofNat b.toNat).filter (· ≠ '\x00') = t := by
  induction t with
  | nil => rfl
  | cons c t ih =>
    obtain ⟨hc, ht⟩ := List.forall_mem_cons.1 h
    rw [List.mem_cons, not_or] at hnul
    have hbyte : Char.ofNat (UInt8.ofNat c.toNat).toNat = c := by
      rw [UInt8.toNat_ofNat', Nat.mod_eq_of_lt (by omega), Char.ofNat_toNat]
    rw [utf16le, List.flatMap_cons, charUtf16le_ascii hc, List.map_append, List.filter_append]
    rw [utf16le] at ih
    rw [ih ht hnul.2, List.map_cons, hbyte,
      List.filter_cons_of_pos (by simpa using fun he => hnul.1 he.symm)]
    rfl

theorem decoded_eq_iff (t : List Char) (hnul : '\x00' ∉ t) (n : Nat) :
    (fromUtf8Lossy (utf16le t ++ List.replicate n 0)).filter (· ≠ '\x00') = t ↔
      ∀ c ∈ t, c.toNat < 0x80 := by
  generalize hbs : utf16le t ++ List.replicate n 0 = bs
  constructor
  · intro heq
    -- A replacement character would need two bytes that are replaced by two.
    have hcount : (fromUtf8Lossy bs).count replacementChar = t.count replacementChar := by
      rw [← List.count_filter (p := (· ≠ '\x00')) (by decide), heq]
    have hreplaced := countP_invalid_le bs
    have htwo := count_replacementChar_le t
    rw [← hbs, List.countP_append] at hreplaced
    have hnone : replacementChar ∉ fromUtf8Lossy bs := by
      rw [hbs] at hreplaced
      exact List.count_eq_zero.1 (by omega)
    have hweight : weightOf bs = weightOf (t.flatMap String.utf8EncodeChar) := by
      rw [← encode_fromUtf8Lossy bs hnone, ← weightOf_filter, heq]
    rw [← hbs, weightOf_append, weightOf_zeros, Nat.add_zero] at hweight
    exact (ascii_of_weightOf t).2 hweight
  · intro hascii
    have hbytes : ∀ b ∈ bs, b < 0x80 := by
      rw [← hbs]
      intro b hb
      rcases List.mem_append.1 hb with hb | hb
      · exact utf16le_ascii t hascii b hb
      · rw [List.eq_of_mem_replicate hb]
        decide
    have hzeros : ((List.replicate n 0).map fun b : UInt8 => Char.ofNat b.toNat).filter
        (· ≠ '\x00') = [] := by
      rw [List.map_replicate, List.filter_replicate_of_neg (by decide)]
    rw [fromUtf8Lossy_ascii bs hbytes, ← hbs, List.map_append, List.filter_append,
      utf16le_ascii_filter t hascii hnul, hzeros, List.append_nil]

theorem requestIn_ok {n : Nat} {event : Nat → GenericTrbEntry} {slot : BitVec 8}
    (hslot : slot.toNat < n) (hevent : ∀ p, (event p).transferResultOk = .ok ())
    (setup : SetupStageTrb) (buf : DataBuffer) (trbs : List GenericTrbEntry) :
    ∃ trbs', Controller.requestIn (recorder n event) slot setup buf trbs = .ok () trbs' := by
  have hnotify : Controller.notifyEp n slot 1 = .ok () := by
    rw [Controller.notifyEp, if_pos hslot, if_pos (by decide)]
  refine ⟨trbs ++ [setup.toEntry] ++ [(DataStageTrb.newIn buf).toEntry] ++
    [StatusStageTrb.newOut.toEntry], ?_⟩
  rw [Controller.requestIn, bind_of_ok (recorder_push _ _), bind_of_ok (recorder_push _ _),
    bind_of_ok (recorder_push _ _), recorder, ofExcept_bind hnotify]
  change (MonadExcept.ofExcept (event (trbs ++ [setup.toEntry]).length).transferResultOk :
    EStateM Fault (List GenericTrbEntry) Unit) _ = _
  rw [hevent]
  rfl

/-- A text comes through exactly when it is ASCII. -/
theorem string_descriptor_faithful_iff (t : DescriptorText) {doorbells : Nat}
    {event : Nat → GenericTrbEntry} {slot : BitVec 8} (hslot : slot.toNat < doorbells)
    (hevent : ∀ p, (event p).transferResultOk = .ok ()) (ptr : BitVec 64) (langId : BitVec 16)
    (index : BitVec 8) (trbs : List GenericTrbEntry) :
    (∃ trbs', requestStringDescriptor (recorder doorbells event) slot ptr
        (recordedBuffer fun _ => t.buffer) langId index trbs = .ok t.text trbs') ↔
      ∀ c ∈ t.text.toList, c.toNat < 0x80 := by
  obtain ⟨trbs', hok⟩ := requestIn_ok hslot hevent
    (.getDescriptor .string index langId (DataBuffer.mk ptr 128 1).bytes) ⟨ptr, 128, 1⟩ trbs
  have hresult : requestStringDescriptor (recorder doorbells event) slot ptr
      (recordedBuffer fun _ => t.buffer) langId index trbs =
      .ok (String.ofList ((fromUtf8Lossy (t.buffer.drop 2)).filter (· ≠ '\x00'))) trbs' := by
    rw [requestStringDescriptor, Controller.requestDescriptor, bind_of_ok hok]
    rfl
  have hbuffer : t.buffer.drop 2 = utf16le t.text.toList ++
      List.replicate (126 - (utf16le t.text.toList).length) 0 := by
    have hrest : ∀ n, 128 - (n + 1 + 1) = 126 - n := fun n => by omega
    rw [DescriptorText.buffer, List.drop_replicate, List.length_cons, List.length_cons, hrest]
    rfl
  rw [← decoded_eq_iff t.text.toList t.nonNul (126 - (utf16le t.text.toList).length), ← hbuffer]
  constructor
  · rintro ⟨trbs'', h⟩
    injection hresult.symm.trans h with htext
    have hchars := congrArg String.toList htext
    rwa [String.toList_ofList] at hchars
  · intro h
    refine ⟨trbs', ?_⟩
    rw [hresult, h, String.ofList_toList]

def successEvent : GenericTrbEntry := ⟨0, 1 <<< 24, TrbType.transferEvent.value <<< 10⟩

theorem string_descriptor_faithful_keyboard :
    (∃ trbs', requestStringDescriptor (recorder 8 fun _ => successEvent) 1 0
        (recordedBuffer fun _ => DescriptorText.buffer ⟨"Keyboard", by decide, by decide⟩) 0x409 2
          [] = .ok "Keyboard" trbs') ↔ ∀ c ∈ "Keyboard".toList, c.toNat < 0x80 :=
  string_descriptor_faithful_iff ⟨"Keyboard", by decide, by decide⟩ (by decide) (fun _ => by decide)
    0 0x409 2 []

/-- A small e with acute accent is read as a replacement character. -/
theorem string_descriptor_accent :
    (∃ trbs', requestStringDescriptor (recorder 8 fun _ => successEvent) 1 0
      (recordedBuffer fun _ => DescriptorText.buffer ⟨"é", by decide, by decide⟩) 0x409 2 [] =
        .ok "\uFFFD" trbs') ∧ "\uFFFD" ≠ "é" := by
  obtain ⟨trbs', hok⟩ := @requestIn_ok 8 (fun _ => successEvent) 1 (by decide)
    (fun _ => by decide)
    (.getDescriptor .string 2 0x409 (DataBuffer.mk 0 128 1).bytes) ⟨0, 128, 1⟩ []
  have htext : String.ofList ((fromUtf8Lossy ((DescriptorText.buffer
      ⟨"é", by decide, by decide⟩).drop 2)).filter (· ≠ '\x00')) = "\uFFFD" := by decide
  refine ⟨⟨trbs', ?_⟩, by decide⟩
  rw [requestStringDescriptor, Controller.requestDescriptor, bind_of_ok hok]
  exact congrArg (EStateM.Result.ok · trbs') htext

end Wasabi
