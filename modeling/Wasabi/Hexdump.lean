import Wasabi.Chunks
import Wasabi.Hexadecimal
import Wasabi.Usize

namespace Wasabi
set_option autoImplicit true

/-- The variables of `hexdump_bytes`, and what has been printed. -/
structure Hexdump where
  i : Nat
  ascii : Fin 16 → UInt8
  offset : Nat
  out : List Char

namespace Hexdump

def start : Hexdump := ⟨0, fun _ => 0, 0, []⟩

def print (this : Hexdump) (text : List Char) : Hexdump := { this with out := this.out ++ text }

end Hexdump

def asciiChar (last c : UInt8) : Char := if 0x20 ≤ c ∧ c ≤ last then Char.ofNat c.toNat else '.'

def printAscii (last : UInt8) (this : Hexdump) (row : List UInt8) : Hexdump :=
  let this := this.print ['|']
  let this := row.foldl (fun this c => this.print [asciiChar last c]) this
  this.print ['|', '\n']

/-- A row of 16 bytes is closed. The offset is an `i32`. -/
def closeRow (this : Hexdump) : Except Fault Hexdump :=
  if this.i = 16 then
    let this := printAscii 0x7e this (List.ofFn this.ascii)
    if this.offset + 16 < 2 ^ 31 then .ok { this with offset := this.offset + 16, i := 0 }
    else .error .overflow
  else .ok this

/-- `ascii[i] = *v; i += 1`. -/
def storeByte (this : Hexdump) (v : UInt8) : Except Fault Hexdump :=
  if h : this.i < 16 then
    .ok { this with ascii := Function.update this.ascii ⟨this.i, h⟩ v, i := this.i + 1 }
  else .error .outOfBounds

def dumpByte (this : Hexdump) (v : UInt8) : Except Fault Hexdump := do
  let this := if this.i = 0 then this.print (zeroPadded 8 this.offset ++ [':', ' ']) else this
  let this := this.print (zeroPadded 2 v.toNat ++ [' '])
  closeRow (← storeByte this v)

def padRow (this : Hexdump) : Hexdump :=
  if this.i < 16 then padRow { this.print [' ', ' ', ' '] with i := this.i + 1 } else this
termination_by 16 - this.i

def hexdumpBytes (bytes : List UInt8) : Except Fault (List Char) := do
  let this ← bytes.foldlM dumpByte .start
  if this.i ≠ 0 then
    let oldI := this.i
    let this := padRow this
    return (printAscii 0x7f this ((List.ofFn this.ascii).take oldI)).out
  else return this.out

def rowBytes (offset : Nat) (row : List UInt8) : List Char :=
  hexDigits 8 offset ++ [':', ' '] ++ row.flatMap fun v => hexDigits 2 v.toNat ++ [' ']

/-- A row: the offset, 16 columns of bytes, and the bytes up to `last` between bars. -/
def hexdumpRow (last : UInt8) (offset : Nat) (row : List UInt8) : List Char :=
  rowBytes offset row ++ List.replicate (3 * (16 - row.length)) ' ' ++
    ['|'] ++ row.map (asciiChar last) ++ ['|', '\n']

def hexdumpRows (rows : List (List UInt8)) : List Char :=
  rows.zipIdx.flatMap fun (row, k) => hexdumpRow 0x7e (16 * k) row

/-- The full rows `rows` and the bytes `row` of the next one have been printed. -/
structure Dumped (rows : List (List UInt8)) (row : List UInt8) (this : Hexdump) : Prop where
  full : ∀ r ∈ rows, r.length = 16
  short : row.length < 16
  i : this.i = row.length
  ascii : ∀ k : Fin 16, ∀ v, row[k.val]? = some v → this.ascii k = v
  offset : this.offset = 16 * rows.length
  out : this.out = hexdumpRows rows ++ if row = [] then [] else rowBytes this.offset row

section
variable {rows : List (List UInt8)} {row : List UInt8} {this : Hexdump}

theorem printAscii_eq (last : UInt8) (this : Hexdump) (row : List UInt8) :
    printAscii last this row = this.print (['|'] ++ row.map (asciiChar last) ++ ['|', '\n']) := by
  have hloop : ∀ this : Hexdump, row.foldl (fun this c => this.print [asciiChar last c]) this =
      this.print (row.map (asciiChar last)) := by
    induction row with
    | nil => exact fun this => congrArg (Hexdump.mk _ _ _) (List.append_nil _).symm
    | cons c row ih =>
      intro this
      rw [List.foldl_cons, ih]
      exact congrArg (Hexdump.mk _ _ _) (List.append_assoc _ _ _)
  unfold printAscii
  dsimp only
  rw [hloop]
  simp only [Hexdump.print, List.append_assoc]

theorem closeRow_full (this : Hexdump) (hi : this.i = 16) (hoffset : this.offset + 16 < 2 ^ 31) :
    closeRow this = .ok ⟨0, this.ascii, this.offset + 16,
      this.out ++ (['|'] ++ (List.ofFn this.ascii).map (asciiChar 0x7e) ++ ['|', '\n'])⟩ := by
  rw [closeRow, if_pos hi]
  dsimp only
  rw [printAscii_eq]
  exact if_pos hoffset

theorem padRow_eq (this : Hexdump) (h : this.i ≤ 16) : padRow this =
    { this.print (List.replicate (3 * (16 - this.i)) ' ') with i := 16 } := by
  induction hk : 16 - this.i generalizing this with
  | zero =>
    obtain ⟨i, ascii, offset, out⟩ := this
    obtain rfl : i = 16 := by
      dsimp only at h hk
      omega
    rw [padRow, if_neg (Nat.lt_irrefl 16)]
    exact congrArg (Hexdump.mk 16 ascii offset) (List.append_nil out).symm
  | succ k ih =>
    have hlt : this.i < 16 := by omega
    have hnext : 16 - (this.i + 1) = k := by omega
    have hspaces : [' ', ' ', ' '] ++ List.replicate (3 * k) ' ' =
        List.replicate (3 * (k + 1)) ' ' := by
      rw [Nat.mul_succ, Nat.add_comm, List.replicate_add]
      rfl
    rw [padRow, if_pos hlt, ih _ (show this.i + 1 ≤ 16 from hlt) hnext, ← hspaces]
    exact congrArg (Hexdump.mk 16 this.ascii this.offset) (List.append_assoc _ _ _)

theorem hexdumpRows_concat (rows : List (List UInt8)) (row : List UInt8) :
    hexdumpRows (rows ++ [row]) = hexdumpRows rows ++ hexdumpRow 0x7e (16 * rows.length) row := by
  rw [hexdumpRows, List.zipIdx_append, List.flatMap_append]
  simp [hexdumpRows]

theorem rowBytes_concat (offset : Nat) (row : List UInt8) (v : UInt8) :
    rowBytes offset (row ++ [v]) = rowBytes offset row ++ (hexDigits 2 v.toNat ++ [' ']) := by
  rw [rowBytes, List.flatMap_append, List.flatMap_singleton, ← List.append_assoc]
  rfl

namespace Dumped

theorem header (h : Dumped rows row this) (hoffset : this.offset < 2 ^ 31) :
    (if this.i = 0 then this.print (zeroPadded 8 this.offset ++ [':', ' ']) else this) =
      { this with out := hexdumpRows rows ++ rowBytes this.offset row } := by
  have hout := h.out
  by_cases hrow : row = []
  · subst hrow
    rw [if_pos rfl, List.append_nil] at hout
    rw [if_pos (show this.i = 0 from h.i), zeroPadded_eq (by omega), Hexdump.print, hout]
    exact congrArg (fun text => Hexdump.mk _ _ _ (_ ++ text)) (List.append_nil _).symm
  · have hi : this.i ≠ 0 := by
      rw [h.i]
      exact fun he => hrow (List.length_eq_zero_iff.1 he)
    rw [if_neg hrow] at hout
    rw [if_neg hi, ← hout]

theorem zeroPadded_byte (v : UInt8) : zeroPadded 2 v.toNat = hexDigits 2 v.toNat :=
  zeroPadded_eq v.toNat_lt

theorem ascii_concat (h : Dumped rows row this) (hlt : this.i < 16) (v : UInt8) (k : Fin 16)
    (hk : (row ++ [v])[k.val]? = some u) :
    Function.update this.ascii ⟨this.i, hlt⟩ v k = u := by
  have hi := h.i
  rcases Nat.lt_trichotomy k.val row.length with hlt' | heq | hgt
  · have hne : k ≠ ⟨this.i, hlt⟩ := by
      intro he
      have hval := congrArg Fin.val he
      dsimp only at hval
      omega
    rw [List.getElem?_append_left hlt'] at hk
    rw [Function.update_of_ne hne]
    exact h.ascii k u hk
  · obtain rfl : k = ⟨this.i, hlt⟩ := Fin.ext (heq.trans hi.symm)
    rw [heq, List.getElem?_concat_length] at hk
    cases hk
    exact Function.update_self _ _ _
  · rw [List.getElem?_eq_none (by rw [List.length_append, List.length_singleton]; omega)] at hk
    cases hk

theorem take_ascii (hlen : row.length ≤ 16) {ascii : Fin 16 → UInt8}
    (hascii : ∀ k : Fin 16, ∀ v, row[k.val]? = some v → ascii k = v) :
    (List.ofFn ascii).take row.length = row := by
  refine List.ext_getElem? fun k => ?_
  by_cases hk : k < row.length
  · rw [List.getElem?_take_of_lt hk, List.getElem?_ofFn, dif_pos (by omega),
      List.getElem?_eq_getElem hk]
    exact congrArg some (hascii ⟨k, by omega⟩ _ (List.getElem?_eq_getElem hk))
  · rw [List.getElem?_eq_none (by rw [List.length_take]; omega),
      List.getElem?_eq_none (Nat.not_lt.1 hk)]

theorem dumpByte_eq (h : Dumped rows row this) (hoffset : this.offset < 2 ^ 31) (v : UInt8) :
    ∃ ascii, (∀ (k : Fin 16) u, (row ++ [v])[k.val]? = some u → ascii k = u) ∧
      dumpByte this v = closeRow ⟨this.i + 1, ascii, this.offset,
        hexdumpRows rows ++ rowBytes this.offset (row ++ [v])⟩ := by
  have hlt : this.i < 16 := by
    rw [h.i]
    exact h.short
  refine ⟨Function.update this.ascii ⟨this.i, hlt⟩ v,
    fun k _ hk => h.ascii_concat hlt v k hk, ?_⟩
  have hstore : ∀ out, storeByte ⟨this.i, this.ascii, this.offset, out⟩ v =
      .ok ⟨this.i + 1, Function.update this.ascii ⟨this.i, hlt⟩ v, this.offset, out⟩ :=
    fun out => dif_pos hlt
  rw [dumpByte, h.header hoffset, zeroPadded_byte]
  dsimp only [Hexdump.print]
  rw [hstore, ok_bind, List.append_assoc, ← rowBytes_concat]

theorem more (h : Dumped rows row this) (hoffset : this.offset < 2 ^ 31) (v : UInt8)
    (hmore : row.length + 1 < 16) :
    ∃ this', dumpByte this v = .ok this' ∧ Dumped rows (row ++ [v]) this' := by
  obtain ⟨ascii, hascii, hbyte⟩ := h.dumpByte_eq hoffset v
  have hne : this.i + 1 ≠ 16 := by
    rw [h.i]
    exact Nat.ne_of_lt hmore
  refine ⟨_, hbyte.trans (if_neg hne), ?_⟩
  constructor
  case full => exact h.full
  case short =>
    rw [List.length_append, List.length_singleton]
    exact hmore
  case i =>
    rw [List.length_append, List.length_singleton]
    exact congrArg (· + 1) h.i
  case ascii => exact hascii
  case offset => exact h.offset
  case out => rw [if_neg (List.append_ne_nil_of_right_ne_nil _ (List.cons_ne_nil _ _))]

theorem full_row (h : Dumped rows row this) (hoffset : this.offset + 16 < 2 ^ 31) (v : UInt8)
    (hfull : row.length + 1 = 16) :
    ∃ this', dumpByte this v = .ok this' ∧ Dumped (rows ++ [row ++ [v]]) [] this' := by
  obtain ⟨ascii, hascii, hbyte⟩ := h.dumpByte_eq (by omega) v
  have hlen : (row ++ [v]).length = 16 := by
    rw [List.length_append, List.length_singleton, hfull]
  have hbuffer : List.ofFn ascii = row ++ [v] := by
    have htake := take_ascii hlen.le hascii
    rwa [hlen, List.take_of_length_le (List.length_ofFn).le] at htake
  refine ⟨⟨0, ascii, this.offset + 16, hexdumpRows (rows ++ [row ++ [v]])⟩, ?_, ?_⟩
  · have hi : this.i + 1 = 16 := by
      rw [h.i]
      exact hfull
    refine hbyte.trans ((closeRow_full ⟨this.i + 1, ascii, this.offset, _⟩ hi hoffset).trans ?_)
    rw [hbuffer, hexdumpRows_concat, hexdumpRow, hlen, ← h.offset]
    simp only [List.append_assoc, Nat.sub_self, Nat.mul_zero, List.replicate_zero, List.nil_append]
  · constructor
    case full =>
      intro r hr
      rcases List.mem_append.1 hr with hr | hr
      · exact h.full r hr
      · rw [List.mem_singleton.1 hr, hlen]
    case short => exact Nat.zero_lt_succ _
    case i => rfl
    case ascii =>
      intro k u hk
      cases hk
    case offset =>
      rw [List.length_append, List.length_singleton, Nat.mul_succ]
      exact congrArg (· + 16) h.offset
    case out => exact (List.append_nil _).symm

theorem run (h : Dumped rows row this) (bytes : List UInt8)
    (hlen : 16 * rows.length + row.length + bytes.length < 2 ^ 31) :
    ∃ rows' row' this', bytes.foldlM dumpByte this = .ok this' ∧ Dumped rows' row' this' ∧
      rows'.flatten ++ row' = rows.flatten ++ row ++ bytes := by
  induction bytes generalizing rows row this with
  | nil => exact ⟨rows, row, this, rfl, h, (List.append_nil _).symm⟩
  | cons v bytes ih =>
    have hoffset := h.offset
    have hshort := h.short
    rw [List.length_cons] at hlen
    rw [List.foldlM_cons]
    by_cases hfull : row.length + 1 = 16
    · obtain ⟨this', hbyte, h'⟩ := h.full_row (by omega) v hfull
      obtain ⟨rows', row', this'', hrun, hdumped, hbytes⟩ := ih h' (by
        rw [List.length_append, List.length_singleton, List.length_nil]
        omega)
      refine ⟨rows', row', this'', ?_, hdumped, hbytes.trans ?_⟩
      · rw [hbyte]
        exact hrun
      · simp only [List.flatten_append, List.flatten_singleton, List.append_assoc,
          List.singleton_append]
    · obtain ⟨this', hbyte, h'⟩ := h.more (by omega) v (by omega)
      obtain ⟨rows', row', this'', hrun, hdumped, hbytes⟩ := ih h' (by
        rw [List.length_append, List.length_singleton]
        omega)
      refine ⟨rows', row', this'', ?_, hdumped, hbytes.trans ?_⟩
      · rw [hbyte]
        exact hrun
      · simp only [List.append_assoc, List.singleton_append]

end Dumped

/-- All rows but a last one that is not full have the format of `hexdumpRows`; that one shows the
bytes up to 0x7f. -/
theorem hexdumpBytes_eq (bytes : List UInt8) (hlen : bytes.length < 2 ^ 31) :
    ∃ rows row, (∀ r ∈ rows, r.length = 16) ∧ row.length < 16 ∧ bytes = rows.flatten ++ row ∧
      hexdumpBytes bytes = .ok (hexdumpRows rows ++
        if row = [] then [] else hexdumpRow 0x7f (16 * rows.length) row) := by
  have hstart : Dumped [] [] .start :=
    ⟨fun r hr => absurd hr List.not_mem_nil, by decide, rfl, fun _ _ h => (by cases h),
      rfl, rfl⟩
  obtain ⟨rows, row, this, hrun, h, hbytes⟩ := hstart.run bytes (by
    rw [List.length_nil, List.length_nil]
    omega)
  refine ⟨rows, row, h.full, h.short, hbytes.symm, ?_⟩
  rw [hexdumpBytes, hrun, ok_bind]
  by_cases hrow : row = []
  · have hi : ¬this.i ≠ 0 := by
      rw [h.i, hrow]
      exact not_not.2 rfl
    rw [if_neg hi, h.out, if_pos hrow, if_pos hrow]
    rfl
  · have hi : this.i ≠ 0 := by
      rw [h.i]
      exact fun he => hrow (List.length_eq_zero_iff.1 he)
    have hle : this.i ≤ 16 := by
      rw [h.i]
      exact h.short.le
    have htake : (List.ofFn this.ascii).take this.i = row := by
      rw [h.i]
      exact Dumped.take_ascii h.short.le h.ascii
    rw [if_pos hi]
    dsimp only
    rw [padRow_eq this hle, printAscii_eq]
    dsimp only [Hexdump.print]
    rw [htake, h.out, if_neg hrow, if_neg hrow, hexdumpRow, h.i, ← h.offset]
    refine congrArg Except.ok ?_
    simp only [List.append_assoc]

/-- The two ends of the printable range differ at 0x7f alone. -/
theorem map_asciiChar_iff (row : List UInt8) :
    row.map (asciiChar 0x7f) = row.map (asciiChar 0x7e) ↔ 0x7f ∉ row := by
  have hchar : ∀ c : UInt8, asciiChar 0x7f c = asciiChar 0x7e c ↔ c ≠ 0x7f := by
    intro c
    by_cases hc : c = 0x7f
    · subst hc
      exact iff_of_false (by decide) (not_not.2 rfl)
    · have hlast : c ≤ 0x7f ↔ c ≤ 0x7e := by
        have hne : c.toNat ≠ 0x7f := fun he => hc (UInt8.toNat_inj.1 he)
        rw [UInt8.le_iff_toNat_le, UInt8.le_iff_toNat_le]
        change c.toNat ≤ 0x7f ↔ c.toNat ≤ 0x7e
        omega
      exact iff_of_true (by simp only [asciiChar, hlast]) hc
  rw [List.map_inj_left]
  constructor
  · intro h hmem
    exact (hchar 0x7f).1 (h 0x7f hmem) rfl
  · intro h c hmem
    refine (hchar c).2 fun he => h ?_
    rwa [← he]

theorem hexdumpRow_iff (offset : Nat) (row : List UInt8) :
    hexdumpRow 0x7f offset row = hexdumpRow 0x7e offset row ↔ 0x7f ∉ row := by
  rw [hexdumpRow, hexdumpRow, List.append_left_inj, List.append_right_inj]
  exact map_asciiChar_iff row

end

/-- Every row has the format of `hexdumpRow 0x7e` exactly when the last one, if it is not full, has
no byte 0x7f. -/
theorem hexdump_rows_iff (bytes : List UInt8) (hlen : bytes.length < 2 ^ 31) :
    hexdumpBytes bytes = .ok (hexdumpRows (chunks 16 bytes)) ↔
      0x7f ∉ bytes.drop (16 * (bytes.length / 16)) := by
  obtain ⟨rows, row, hfull, hshort, rfl, hdump⟩ := hexdumpBytes_eq bytes hlen
  rw [hdump, drop_flatten hfull hshort, chunks_flatten (by decide) hfull, Except.ok.injEq]
  by_cases hrow : row = []
  · subst hrow
    rw [if_pos rfl, List.append_nil, chunks, List.append_nil]
    exact iff_of_true rfl List.not_mem_nil
  · rw [if_neg hrow, chunks_short hrow hshort.le, hexdumpRows_concat, List.append_right_inj]
    exact hexdumpRow_iff _ row

theorem hexdump_rows_iff_text : hexdumpBytes [0x57, 0x61, 0x73] =
    .ok (hexdumpRows (chunks 16 [0x57, 0x61, 0x73])) :=
  (hexdump_rows_iff [0x57, 0x61, 0x73] (by decide)).2 (by decide)

theorem hexdump_shows_delete : hexdumpBytes [0x7f] ≠ .ok (hexdumpRows (chunks 16 [0x7f])) := by
  obtain ⟨rows, row, hfull, _, hbytes, hdump⟩ := hexdumpBytes_eq [0x7f] (by decide)
  have hlen := congrArg List.length hbytes
  rw [List.length_append, length_flatten hfull, List.length_singleton] at hlen
  obtain rfl : rows = [] := List.length_eq_zero_iff.1 (by omega)
  obtain rfl : [0x7f] = row := hbytes
  intro h
  rw [chunks_short (by decide) (by decide)] at h
  have hrow := List.append_right_inj _ |>.1 (Except.ok.inj (hdump.symm.trans h))
  exact (hexdumpRow_iff 0 [0x7f]).1 hrow List.mem_cons_self

end Wasabi
