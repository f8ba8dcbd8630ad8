import Wasabi.SlotFields

namespace Wasabi
set_option autoImplicit true

inductive EndpointCall where
  | epType (ty : EndpointType)
  | errorCount (n : BitVec 32)
  | maxPacketSize (size : BitVec 16)
  | dequeueCycleState (dcs : Bool)
  | ringDequeuePointer (ptr : BitVec 64)

namespace EndpointCall

def call (ep : EndpointContext) : EndpointCall → Except Fault EndpointContext
  | epType ty => ep.setEpType ty
  | errorCount n => ep.setErrorCount n
  | maxPacketSize size => .ok (ep.setMaxPacketSize size)
  | dequeueCycleState dcs => ep.setDequeueCycleState dcs
  | ringDequeuePointer ptr => ep.setRingDequeuePointer ptr

def run (c : EndpointCall) : EStateM Fault EndpointContext Unit := setter fun ep => c.call ep

def runAll (calls : List EndpointCall) (ep : EndpointContext) : EndpointContext :=
  calls.foldl (fun ep c => endState c.run ep) ep

def Accepted : EndpointCall → Prop
  | errorCount n => n < 4
  | _ => True

def type? : EndpointCall → Option (BitVec 3)
  | epType ty => some (ty.value.setWidth 3)
  | _ => none

def count? : EndpointCall → Option (BitVec 2)
  | errorCount n => if n < 4 then some (n.setWidth 2) else none
  | _ => none

def size? : EndpointCall → Option (BitVec 16)
  | maxPacketSize size => some size
  | _ => none

def cycle? : EndpointCall → Option (BitVec 1)
  | dequeueCycleState dcs => some (BitVec.ofBool dcs)
  | _ => none

/-- The address without its low bits, which an aligned pointer does not need. -/
def pointer? : EndpointCall → Option (BitVec 60)
  | ringDequeuePointer ptr => some (ptr.extractLsb' 4 60)
  | _ => none

end EndpointCall

abbrev typeField : BitField 32 := ⟨3, 3, by decide⟩

abbrev countField : BitField 32 := ⟨1, 2, by decide⟩

abbrev sizeField : BitField 32 := ⟨16, 16, by decide⟩

abbrev cycleField : BitField 64 := ⟨0, 1, by decide⟩

abbrev pointerField : BitField 64 := ⟨4, 60, by decide⟩

/-- What the setters are for: from `ep` to `ep'` each field has become what was set last, and
nothing else has changed. -/
structure EndpointFields (ep : EndpointContext) (calls : List EndpointCall)
    (ep' : EndpointContext) : Prop where
  type : typeField.get (ep'.data.get 1) =
    (lastOf EndpointCall.type? calls).getD (typeField.get (ep.data.get 1))
  count : countField.get (ep'.data.get 1) =
    (lastOf EndpointCall.count? calls).getD (countField.get (ep.data.get 1))
  size : sizeField.get (ep'.data.get 1) =
    (lastOf EndpointCall.size? calls).getD (sizeField.get (ep.data.get 1))
  cycle : cycleField.get ep'.trDequeuePtr =
    (lastOf EndpointCall.cycle? calls).getD (cycleField.get ep.trDequeuePtr)
  pointer : pointerField.get ep'.trDequeuePtr =
    (lastOf EndpointCall.pointer? calls).getD (pointerField.get ep.trDequeuePtr)
  bits : ∀ i < 32, ¬typeField.Covers i → ¬countField.Covers i → ¬sizeField.Covers i →
    (ep'.data.get 1).getLsbD i = (ep.data.get 1).getLsbD i
  pointerBits : ∀ i < 64, ¬cycleField.Covers i → ¬pointerField.Covers i →
    ep'.trDequeuePtr.getLsbD i = ep.trDequeuePtr.getLsbD i
  rest : ep'.data.get 0 = ep.data.get 0 ∧ ep'.averageTrbLength = ep.averageTrbLength ∧
    ep'.maxEsitPayloadLow = ep.maxEsitPayloadLow
  accepted : ∀ c ∈ calls, ∀ s, c.Accepted → ∃ s', c.run s = .ok () s'
  refused : ∀ c ∈ calls, ∀ s, ¬c.Accepted → ∃ msg, c.run s = .error (.err msg) s

namespace EndpointCall

abbrev clearedField : BitField 32 := ⟨16, 12, by decide⟩

def dword (x : BitVec 32) : EndpointCall → BitVec 32
  | epType ty => typeField.write ty.value x
  | errorCount n => if n < 4 then countField.write n x else x
  | maxPacketSize size => clearedField.write (size.setWidth 32) x
  | _ => x

def pointerWord (x : BitVec 64) : EndpointCall → BitVec 64
  | dequeueCycleState dcs => cycleField.write (if dcs then 1 else 0) x
  | ringDequeuePointer ptr => pointerField.write (ptr >>> 4) x
  | _ => x

structure Stored (c : EndpointCall) (ep ep' : EndpointContext) : Prop where
  dword : ep'.data.get 1 = c.dword (ep.data.get 1)
  pointerWord : ep'.trDequeuePtr = c.pointerWord ep.trDequeuePtr
  rest : ep'.data.get 0 = ep.data.get 0 ∧ ep'.averageTrbLength = ep.averageTrbLength ∧
    ep'.maxEsitPayloadLow = ep.maxEsitPayloadLow

theorem Stored.set {c : EndpointCall} (hlt : 1 < 2) (h : c.dword (ep.data.get 1) = x)
    (hptr : c.pointerWord ep.trDequeuePtr = ep.trDequeuePtr) :
    Stored c ep { ep with data := ep.data.set 1 x hlt } := by
  constructor
  case dword => exact (Vector.getElem_set_self hlt).trans h.symm
  case pointerWord => exact hptr.symm
  case rest => exact ⟨Vector.getElem_set_ne hlt (by decide) (by decide), rfl, rfl⟩

theorem Stored.setPtr {c : EndpointCall} (h : c.pointerWord ep.trDequeuePtr = x)
    (hdword : c.dword (ep.data.get 1) = ep.data.get 1) :
    Stored c ep { ep with trDequeuePtr := x } :=
  ⟨hdword.symm, h.symm, rfl, rfl, rfl⟩

theorem pointer_lt (p : BitVec 64) : (p >>> 4).toNat < 2 ^ pointerField.width := by
  have hp := p.isLt
  rw [BitVec.toNat_ushiftRight, Nat.shiftRight_eq_div_pow]
  exact Nat.div_lt_of_lt_mul hp

theorem cycle_lt (dcs : Bool) :
    (if dcs then 1 else 0 : BitVec 64).toNat < 2 ^ cycleField.width := by
  cases dcs <;> decide

theorem count_mask (n : BitVec 32) : n &&& ~~~0b11 = 0 ↔ n < 4 := by
  have hmask : (~~~(0b11 : BitVec 32)).toNat = (2 ^ 32 - 1) ^^^ (2 ^ 2 - 1) := rfl
  have hzero : (0 : BitVec 32).toNat = 0 := rfl
  have hfour : (4 : BitVec 32).toNat = 4 := rfl
  rw [BitVec.toNat_eq, BitVec.toNat_and, hmask, land_xor_pow n.isLt (by omega), BitVec.lt_def,
    hzero, hfour]
  omega

theorem call_error (c : EndpointCall) (ep : EndpointContext) (h : ¬c.Accepted) :
    ∃ msg, c.call ep = .error (.err msg) := by
  cases c with
  | errorCount n =>
    refine ⟨_, if_neg ?_⟩
    rwa [count_mask]
  | epType | maxPacketSize | dequeueCycleState | ringDequeuePointer => exact absurd trivial h

theorem call_ok (c : EndpointCall) (ep : EndpointContext) (h : c.Accepted) :
    ∃ ep', c.call ep = .ok ep' ∧ Stored c ep ep' := by
  cases c with
  | epType ty =>
    have hty : ty.value < 8 := by cases ty <;> decide
    exact ⟨_, if_pos hty, .set (by decide) rfl rfl⟩
  | errorCount n =>
    have hn : n < 4 := h
    exact ⟨_, if_pos ((count_mask n).2 hn), .set (by decide) (if_pos hn) rfl⟩
  | maxPacketSize size => exact ⟨_, rfl, .set (by decide) rfl rfl⟩
  | dequeueCycleState dcs =>
    have hok := BitField.writeBits_write (f := cycleField) (x := ep.trDequeuePtr)
      (by decide) (by decide) (cycle_lt dcs)
    refine ⟨_, ?_, .setPtr rfl rfl⟩
    rw [call, EndpointContext.setDequeueCycleState]
    exact congrArg (do return { ep with trDequeuePtr := ← · }) hok
  | ringDequeuePointer ptr =>
    have hok := BitField.writeBits_write (f := pointerField) (x := ep.trDequeuePtr)
      (by decide) (by decide) (pointer_lt ptr)
    refine ⟨_, ?_, .setPtr rfl rfl⟩
    exact congrArg (do return { ep with trDequeuePtr := ← · }) hok

theorem stored (c : EndpointCall) (ep : EndpointContext) : Stored c ep (endState c.run ep) := by
  by_cases h : c.Accepted
  · obtain ⟨ep', hok, hstored⟩ := c.call_ok ep h
    rwa [endState, run, setter_of_ok hok]
  · obtain ⟨msg, herr⟩ := c.call_error ep h
    rw [endState, run, setter_of_error herr]
    cases c with
    | errorCount n => exact ⟨(if_neg h).symm, rfl, rfl, rfl, rfl⟩
    | epType | maxPacketSize | dequeueCycleState | ringDequeuePointer => exact absurd trivial h

def setsBit (i : Nat) (c : EndpointCall) : Bool := c.size?.any (·.getLsbD i)

/-- The last packet size has all the upper bits that the field has had before. -/
def SizesCovered (ep : EndpointContext) (calls : List EndpointCall) : Prop :=
  ∀ size, lastOf size? calls = some size → ∀ i, 12 ≤ i → i < 16 →
    ((sizeField.get (ep.data.get 1)).getLsbD i = true ∨
      ∃ earlier ∈ calls.filterMap size?, earlier.getLsbD i = true) → size.getLsbD i = true

end EndpointCall

section
variable (x : BitVec 32) (p : BitVec 64) (c : EndpointCall)

theorem type_lt (ty : EndpointType) : ty.value.toNat < 2 ^ typeField.width := by
  cases ty <;> decide

theorem type_dword : typeField.get (c.dword x) = c.type?.getD (typeField.get x) := by
  cases c with
  | epType ty => exact BitField.get_write
  | errorCount n =>
    rw [EndpointCall.dword]
    split
    · next h => exact BitField.get_write_separate (BitVec.lt_def.1 h) (by decide)
    · rfl
  | maxPacketSize size => exact BitField.get_write_below (by decide)
  | dequeueCycleState | ringDequeuePointer => rfl

theorem count_dword : countField.get (c.dword x) = c.count?.getD (countField.get x) := by
  cases c with
  | epType ty => exact BitField.get_write_separate (type_lt ty) (by decide)
  | errorCount n =>
    rw [EndpointCall.dword, EndpointCall.count?]
    split
    · exact BitField.get_write
    · rfl
  | maxPacketSize size => exact BitField.get_write_below (by decide)
  | dequeueCycleState | ringDequeuePointer => rfl

theorem size_kept (h : c.size? = none) : sizeField.get (c.dword x) = sizeField.get x := by
  cases c with
  | epType ty => exact BitField.get_write_separate (type_lt ty) (by decide)
  | errorCount n =>
    rw [EndpointCall.dword]
    split
    · next h => exact BitField.get_write_separate (BitVec.lt_def.1 h) (by decide)
    · rfl
  | maxPacketSize size => cases h
  | dequeueCycleState | ringDequeuePointer => rfl

theorem size_bit (v : BitVec 16) (hi : i < 16) :
    (sizeField.get (EndpointCall.clearedField.write (v.setWidth 32) x)).getLsbD i =
      if i < 12 then v.getLsbD i else x.getLsbD (16 + i) || v.getLsbD i := by
  have hget := BitField.getLsbD_get (f := sizeField)
    (x := EndpointCall.clearedField.write (v.setWidth 32) x) hi
  have hbit : (v.setWidth 32).getLsbD i = v.getLsbD i := by
    rw [BitVec.getLsbD_setWidth, decide_eq_true (Nat.lt_trans hi (by decide)), Bool.true_and]
  have hsub : 16 + i - EndpointCall.clearedField.shift = i := Nat.add_sub_cancel_left 16 i
  have hshift : EndpointCall.clearedField.shift ≤ 16 + i := Nat.le_add_right 16 i
  have hcovers : EndpointCall.clearedField.Covers (16 + i) ↔ i < 12 :=
    ⟨fun h => Nat.lt_of_add_lt_add_left h.2, fun h => ⟨hshift, Nat.add_lt_add_left h 16⟩⟩
  refine hget.trans ((BitField.getLsbD_write (Nat.add_lt_add_left hi 16)).trans ?_)
  simp only [hcovers, hsub, hbit, decide_eq_true hshift, Bool.true_and]

theorem size_low_dword (hi : i < 12) : (sizeField.get (c.dword x)).getLsbD i =
    (c.size?.map (·.getLsbD i)).getD ((sizeField.get x).getLsbD i) := by
  cases hsize : c.size? with
  | none => rw [size_kept x c hsize, Option.map_none, Option.getD_none]
  | some size =>
    cases c with
    | maxPacketSize v =>
      obtain rfl := Option.some.inj hsize
      rw [Option.map_some, Option.getD_some, EndpointCall.dword,
        size_bit x v (Nat.lt_trans hi (by decide)), if_pos hi]
    | epType | errorCount | dequeueCycleState | ringDequeuePointer => cases hsize

theorem size_high_dword (hlo : 12 ≤ i) (hi : i < 16) : (sizeField.get (c.dword x)).getLsbD i =
    ((sizeField.get x).getLsbD i || c.setsBit i) := by
  rw [EndpointCall.setsBit]
  cases hsize : c.size? with
  | none => rw [size_kept x c hsize, Option.any_none, Bool.or_false]
  | some size =>
    have hget : (sizeField.get x).getLsbD i = x.getLsbD (16 + i) :=
      BitField.getLsbD_get (f := sizeField) hi
    cases c with
    | maxPacketSize v =>
      obtain rfl := Option.some.inj hsize
      rw [Option.any_some, EndpointCall.dword, size_bit x v hi, if_neg (Nat.not_lt.2 hlo), hget]
    | epType | errorCount | dequeueCycleState | ringDequeuePointer => cases hsize

theorem cycle_pointerWord :
    cycleField.get (c.pointerWord p) = c.cycle?.getD (cycleField.get p) := by
  cases c with
  | dequeueCycleState dcs =>
    refine BitField.get_write.trans ?_
    cases dcs <;> rfl
  | ringDequeuePointer ptr =>
    exact BitField.get_write_separate (EndpointCall.pointer_lt ptr) (by decide)
  | epType | errorCount | maxPacketSize => rfl

theorem pointer_pointerWord :
    pointerField.get (c.pointerWord p) = c.pointer?.getD (pointerField.get p) := by
  cases c with
  | dequeueCycleState dcs =>
    exact BitField.get_write_separate (EndpointCall.cycle_lt dcs) (by decide)
  | ringDequeuePointer ptr =>
    refine BitField.get_write.trans ?_
    apply BitVec.eq_of_getLsbD_eq
    intro i hi
    rw [BitVec.getLsbD_setWidth, decide_eq_true hi, Bool.true_and, BitVec.getLsbD_ushiftRight]
    exact (BitField.getLsbD_get (f := pointerField) hi).symm
  | epType | errorCount | maxPacketSize => rfl

theorem dword_elsewhere (hi : i < 32) (htype : ¬typeField.Covers i) (hcount : ¬countField.Covers i)
    (hsize : ¬sizeField.Covers i) : (c.dword x).getLsbD i = x.getLsbD i := by
  cases c with
  | epType ty => exact (BitField.getLsbD_write_of_lt (type_lt ty) hi).trans (if_neg htype)
  | errorCount n =>
    rw [EndpointCall.dword]
    split
    · next h => exact (BitField.getLsbD_write_of_lt (BitVec.lt_def.1 h) hi).trans (if_neg hcount)
    · rfl
  | maxPacketSize size =>
    -- The cleared bits are part of the field, and above it there are no bits.
    have hbelow : ¬EndpointCall.clearedField.shift ≤ i := fun h => hsize ⟨h, hi⟩
    have hcleared : ¬EndpointCall.clearedField.Covers i := fun h => hbelow h.1
    refine (BitField.getLsbD_write hi).trans ((if_neg hcleared).trans ?_)
    rw [decide_eq_false hbelow, Bool.false_and, Bool.or_false]
  | dequeueCycleState | ringDequeuePointer => rfl

theorem pointerWord_elsewhere (hi : i < 64) (hcycle : ¬cycleField.Covers i)
    (hpointer : ¬pointerField.Covers i) : (c.pointerWord p).getLsbD i = p.getLsbD i := by
  cases c with
  | dequeueCycleState dcs =>
    exact (BitField.getLsbD_write_of_lt (EndpointCall.cycle_lt dcs) hi).trans (if_neg hcycle)
  | ringDequeuePointer ptr =>
    exact (BitField.getLsbD_write_of_lt (EndpointCall.pointer_lt ptr) hi).trans (if_neg hpointer)
  | epType | errorCount | maxPacketSize => rfl

end

theorem mem_filterMap_any {calls : List EndpointCall} :
    calls.any (EndpointCall.setsBit i) = true ↔
      ∃ size ∈ calls.filterMap EndpointCall.size?, size.getLsbD i = true := by
  simp only [List.any_eq_true, EndpointCall.setsBit, Option.any_eq_true, List.mem_filterMap]
  constructor
  · rintro ⟨c, hc, size, hsize, hbit⟩
    exact ⟨size, ⟨c, hc, hsize⟩, hbit⟩
  · rintro ⟨size, ⟨c, hc, hsize⟩, hbit⟩
    exact ⟨c, hc, size, hsize, hbit⟩

/-- The packet size reads back in exactly those sequences in which the last size covers the upper
bits of the earlier ones. -/
theorem size_iff (ep : EndpointContext) (calls : List EndpointCall) :
    sizeField.get ((EndpointCall.runAll calls ep).data.get 1) =
        (lastOf EndpointCall.size? calls).getD (sizeField.get (ep.data.get 1)) ↔
      EndpointCall.SizesCovered ep calls := by
  have hlow : ∀ i < 12, (sizeField.get ((EndpointCall.runAll calls ep).data.get 1)).getLsbD i =
      ((lastOf EndpointCall.size? calls).map (·.getLsbD i)).getD
        ((sizeField.get (ep.data.get 1)).getLsbD i) := by
    intro i hi
    rw [← lastOf_map]
    exact foldl_lastOf (g := fun ep : EndpointContext => (sizeField.get (ep.data.get 1)).getLsbD i)
      (fun s c => by rw [(c.stored s).dword, size_low_dword _ c hi]) calls ep
  have hhigh : ∀ i, 12 ≤ i → i < 16 →
      (sizeField.get ((EndpointCall.runAll calls ep).data.get 1)).getLsbD i =
        ((sizeField.get (ep.data.get 1)).getLsbD i || calls.any (EndpointCall.setsBit i)) := by
    intro i hlo hi
    exact foldl_or (g := fun ep : EndpointContext => (sizeField.get (ep.data.get 1)).getLsbD i)
      (fun s c => by rw [(c.stored s).dword, size_high_dword _ c hlo hi]) calls ep
  constructor
  · intro h size hlast i hlo hi hset
    rw [hlast, Option.getD_some] at h
    have hbit : (sizeField.get ((EndpointCall.runAll calls ep).data.get 1)).getLsbD i =
        size.getLsbD i :=
      congrArg (fun v : BitVec 16 => v.getLsbD i) h
    rw [← hbit, hhigh i hlo hi, Bool.or_eq_true, mem_filterMap_any]
    exact hset
  · intro h
    apply BitVec.eq_of_getLsbD_eq
    intro i hi
    rcases Nat.lt_or_ge i 12 with hlt | hlo
    · rw [hlow i hlt]
      cases lastOf EndpointCall.size? calls with
      | none => rfl
      | some size => rfl
    · rw [hhigh i hlo hi]
      cases hlast : lastOf EndpointCall.size? calls with
      | none =>
        have hnil := List.getLast?_eq_none_iff.1 hlast
        have hany : calls.any (EndpointCall.setsBit i) = false := by
          rw [Bool.eq_false_iff, Ne, mem_filterMap_any, hnil]
          rintro ⟨_, hmem, _⟩
          cases hmem
        rw [hany, Bool.or_false, Option.getD_none]
      | some size =>
        have hmem := List.mem_of_getLast? hlast
        rw [Option.getD_some, Bool.eq_iff_iff, Bool.or_eq_true, mem_filterMap_any]
        exact ⟨h size hlast i hlo hi, fun hbit => .inr ⟨size, hmem, hbit⟩⟩

theorem endpoint_fields_iff (ep : EndpointContext) (calls : List EndpointCall) :
    EndpointFields ep calls (EndpointCall.runAll calls ep) ↔
      EndpointCall.SizesCovered ep calls := by
  refine ⟨fun h => (size_iff ep calls).1 h.size, fun h => ?_⟩
  constructor
  case type =>
    exact foldl_lastOf (g := fun ep : EndpointContext => typeField.get (ep.data.get 1))
      (fun s c => (congrArg typeField.get (c.stored s).dword).trans (type_dword _ c)) calls ep
  case count =>
    exact foldl_lastOf (g := fun ep : EndpointContext => countField.get (ep.data.get 1))
      (fun s c => (congrArg countField.get (c.stored s).dword).trans (count_dword _ c)) calls ep
  case size => exact (size_iff ep calls).2 h
  case cycle =>
    exact foldl_lastOf (g := fun ep : EndpointContext => cycleField.get ep.trDequeuePtr)
      (fun s c => (congrArg cycleField.get (c.stored s).pointerWord).trans (cycle_pointerWord _ c))
      calls ep
  case pointer =>
    exact foldl_lastOf (g := fun ep : EndpointContext => pointerField.get ep.trDequeuePtr)
      (fun s c => (congrArg pointerField.get (c.stored s).pointerWord).trans
        (pointer_pointerWord _ c)) calls ep
  case bits =>
    intro i hi htype hcount hsize
    exact foldl_keeps (g := fun ep : EndpointContext => (ep.data.get 1).getLsbD i)
      (fun s c => by rw [(c.stored s).dword, dword_elsewhere _ c hi htype hcount hsize]) calls ep
  case pointerBits =>
    intro i hi hcycle hpointer
    exact foldl_keeps (g := fun ep : EndpointContext => ep.trDequeuePtr.getLsbD i)
      (fun s c => by rw [(c.stored s).pointerWord, pointerWord_elsewhere _ c hi hcycle hpointer])
      calls ep
  case rest =>
    exact ⟨foldl_keeps (g := fun ep : EndpointContext => ep.data.get 0)
        (fun s c => (c.stored s).rest.1) calls ep,
      foldl_keeps (g := EndpointContext.averageTrbLength)
        (fun s c => (c.stored s).rest.2.1) calls ep,
      foldl_keeps (g := EndpointContext.maxEsitPayloadLow)
        (fun s c => (c.stored s).rest.2.2) calls ep⟩
  case accepted =>
    intro c _ s ha
    obtain ⟨s', hok, _⟩ := c.call_ok s ha
    exact ⟨s', setter_of_ok hok⟩
  case refused =>
    intro c _ s ha
    obtain ⟨msg, herr⟩ := c.call_error s ha
    exact ⟨msg, setter_of_error herr⟩

/-- A large packet size and then that of a low-speed device. -/
theorem endpoint_fields_smaller_size :
    ¬EndpointFields .new [.maxPacketSize 4096, .maxPacketSize 8]
      (EndpointCall.runAll [.maxPacketSize 4096, .maxPacketSize 8] .new) :=
  fun h => absurd h.size (by decide)

end Wasabi
