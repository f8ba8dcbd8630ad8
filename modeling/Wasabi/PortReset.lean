import Wasabi.DeviceInit
import Wasabi.Runs

namespace Wasabi
set_option autoImplicit true

namespace PortScEntry

/-- The status bits that the controller sets and software clears by writing 1. -/
def Change (i : Nat) : Prop := 17 ≤ i ∧ i ≤ 23

instance (i : Nat) : Decidable (Change i) := inferInstanceAs (Decidable (_ ∧ _))

/-- The bits that only software changes: the indicator and what wakes the system up. -/
def Setting (i : Nat) : Prop := i = 14 ∨ i = 15 ∨ 25 ≤ i ∧ i ≤ 27

instance (i : Nat) : Decidable (Setting i) := inferInstanceAs (Decidable (_ ∨ _))

/-- The bits that read as what was written to them: the settings and Port Power. -/
def stored : BitVec 32 := 0x0e00c200

/-- The bits that writing 1 clears: the changes and Port Enabled. -/
def clearedByOne : BitVec 32 := 0x00fe0002

/-- The link state, which is written only together with its strobe, bit 16. -/
def linkState : BitVec 32 := 0x000001e0

/-- What the controller makes of a write to PORTSC; bits 4 and 31 start a reset. -/
def written (portsc v : BitVec 32) : BitVec 32 :=
  let taken := if v.getLsbD 16 then stored ||| linkState else stored
  (portsc &&& ~~~taken &&& ~~~(v &&& clearedByOne)) ||| (v &&& taken) |||
    if v.getLsbD 4 || v.getLsbD 31 then 1#32 <<< 4 else 0

/-- What the controller may do to PORTSC on its own. -/
structure HardwareChange (old new : BitVec 32) : Prop where
  changes : ∀ i, Change i → old.getLsbD i = true → new.getLsbD i = true
  settings : ∀ i, Setting i → new.getLsbD i = old.getLsbD i
  strobe : new.getLsbD 16 = false

def asserted (old : BitVec 32) (pos : Nat) : BitVec 32 := (old &&& preserveMask) ||| 1#32 <<< pos

end PortScEntry

inductive ResetPoint where
  | assertPp
  | writePp (old : BitVec 32)
  | waitPp
  | assertPr
  | writePr (old : BitVec 32)
  | waitPr
  | done
  deriving DecidableEq, Repr

/-- A reset of a port: the register, and what has been read from it and written to it. -/
structure PortReset where
  portsc : BitVec 32
  point : ResetPoint
  reads : List (BitVec 32)
  writes : List (BitVec 32)

namespace PortReset

def start (portsc : BitVec 32) : PortReset := ⟨portsc, .assertPp, [], []⟩

def read (s : PortReset) (next : BitVec 32 → ResetPoint) : PortReset :=
  { s with point := next s.portsc, reads := s.reads ++ [s.portsc] }

def write (s : PortReset) (v : BitVec 32) (next : ResetPoint) : PortReset :=
  { s with portsc := PortScEntry.written s.portsc v, point := next, writes := s.writes ++ [v] }

def software (s : PortReset) : PortReset :=
  match s.point with
  | .assertPp => s.read .writePp
  | .writePp old => s.write (PortScEntry.asserted old 9) .waitPp
  | .waitPp => s.read fun v => if v.getLsbD 9 then .assertPr else .waitPp
  | .assertPr => s.read .writePr
  | .writePr old => s.write (PortScEntry.asserted old 4) .waitPr
  | .waitPr => s.read fun v => if v.getLsbD 4 then .waitPr else .done
  | .done => s

/-- The controller may change the register between any two accesses. -/
inductive Step : PortReset → PortReset → Prop where
  | software (s : PortReset) : Step s s.software
  | hardware (s : PortReset) (v : BitVec 32) (h : PortScEntry.HardwareChange s.portsc v) :
    Step s { s with portsc := v }

/-- The accesses of `reset_port` up to a point: power is switched on once and waited for, and only
then is the reset started, once. -/
def Ordered (reads writes : List (BitVec 32)) : ResetPoint → Prop
  | .assertPp => reads = [] ∧ writes = []
  | .writePp old => reads = [old] ∧ writes = []
  | .waitPp => ∃ old off, (∀ v ∈ off, v.getLsbD 9 = false) ∧ reads = old :: off ∧
      writes = [PortScEntry.asserted old 9]
  | .assertPr => ∃ old off on, (∀ v ∈ off, v.getLsbD 9 = false) ∧ on.getLsbD 9 = true ∧
      reads = old :: off ++ [on] ∧ writes = [PortScEntry.asserted old 9]
  | .writePr old' => ∃ old off on, (∀ v ∈ off, v.getLsbD 9 = false) ∧ on.getLsbD 9 = true ∧
      reads = old :: off ++ [on, old'] ∧ writes = [PortScEntry.asserted old 9]
  | .waitPr => ∃ old off on old' busy, (∀ v ∈ off, v.getLsbD 9 = false) ∧ on.getLsbD 9 = true ∧
      (∀ v ∈ busy, v.getLsbD 4 = true) ∧ reads = old :: off ++ on :: old' :: busy ∧
      writes = [PortScEntry.asserted old 9, PortScEntry.asserted old' 4]
  | .done => ∃ old off on old' busy last, (∀ v ∈ off, v.getLsbD 9 = false) ∧
      on.getLsbD 9 = true ∧ (∀ v ∈ busy, v.getLsbD 4 = true) ∧ last.getLsbD 4 = false ∧
      reads = old :: off ++ on :: old' :: busy ++ [last] ∧
      writes = [PortScEntry.asserted old 9, PortScEntry.asserted old' 4]

end PortReset

namespace PortScEntry

/-- What is preserved is neither cleared by writing it back, nor does it start a reset. -/
theorem preserveMask_clear (h : i = 1 ∨ Change i ∨ i = 4 ∨ i = 31) :
    preserveMask.getLsbD i = false := by
  have hall : ∀ i < 32, i = 1 ∨ Change i ∨ i = 4 ∨ i = 31 → preserveMask.getLsbD i = false := by
    decide
  have hi : i < 32 := by
    unfold Change at h
    omega
  exact hall i hi h

theorem preserveMask_setting (h : Setting i) : preserveMask.getLsbD i = true := by
  have hall : ∀ i < 32, Setting i → preserveMask.getLsbD i = true := by decide
  have hi : i < 32 := by
    unfold Setting at h
    omega
  exact hall i hi h

theorem stored_getLsbD (hi : i < 32) : stored.getLsbD i = decide (i = 9 ∨ Setting i) := by
  have hall : ∀ i < 32, stored.getLsbD i = decide (i = 9 ∨ Setting i) := by decide
  exact hall i hi

theorem clearedByOne_getLsbD (hi : i < 32) :
    clearedByOne.getLsbD i = decide (i = 1 ∨ Change i) := by
  have hall : ∀ i < 32, clearedByOne.getLsbD i = decide (i = 1 ∨ Change i) := by decide
  exact hall i hi

theorem asserted_getLsbD (old : BitVec 32) (hi : i ≠ pos) :
    (asserted old pos).getLsbD i = (old.getLsbD i && preserveMask.getLsbD i) := by
  rw [asserted, BitVec.getLsbD_or, BitVec.getLsbD_and, ← BitVec.twoPow_eq, BitVec.getLsbD_twoPow,
    decide_eq_false hi.symm, Bool.and_false, Bool.or_false]

theorem written_getLsbD {v : BitVec 32} (hi : i < 32) (hv : v.getLsbD 16 = false)
    (h4 : i = 4 → v.getLsbD 4 = false ∧ v.getLsbD 31 = false) :
    (written portsc v).getLsbD i = if i = 9 ∨ Setting i then v.getLsbD i
      else portsc.getLsbD i && !(v.getLsbD i && decide (i = 1 ∨ Change i)) := by
  have hreset : (if v.getLsbD 4 || v.getLsbD 31 then 1#32 <<< 4 else 0).getLsbD i = false := by
    by_cases hi4 : i = 4
    · obtain ⟨hreset, hwarm⟩ := h4 hi4
      rw [hreset, hwarm]
      exact BitVec.getLsbD_zero
    · split
      · have hne : ¬4 = i := fun h => hi4 h.symm
        rw [← BitVec.twoPow_eq, BitVec.getLsbD_twoPow, decide_eq_false hne, Bool.and_false]
      · exact BitVec.getLsbD_zero
  have hnine : ¬(i = 9 ∨ Setting i) ∨ ¬(i = 1 ∨ Change i) := by
    unfold Setting Change
    omega
  rw [written, hv, if_neg Bool.false_ne_true, BitVec.getLsbD_or, hreset, Bool.or_false,
    BitVec.getLsbD_or, BitVec.getLsbD_and, BitVec.getLsbD_and, BitVec.getLsbD_and,
    BitVec.getLsbD_not, BitVec.getLsbD_not, BitVec.getLsbD_and, stored_getLsbD hi,
    clearedByOne_getLsbD hi, decide_eq_true hi]
  split
  · next h => simp [h]
  · next h => simp [h]

/-- `assert_bit` changes only its bit and Port Power, as long as the settings are still those that
it has read. -/
theorem written_asserted {portsc old : BitVec 32} (hpos : pos = 4 ∨ pos = 9)
    (hold : old.getLsbD 16 = false) (hset : ∀ i, Setting i → old.getLsbD i = portsc.getLsbD i)
    (hi : i ≠ pos) (h9 : i ≠ 9) :
    (written portsc (asserted old pos)).getLsbD i = portsc.getLsbD i := by
  have hcalm : i = 4 → (asserted old pos).getLsbD 4 = false ∧
      (asserted old pos).getLsbD 31 = false := by
    intro h4
    have hreset : 4 ≠ pos := by omega
    have hwarm : 31 ≠ pos := by omega
    rw [asserted_getLsbD old hreset, asserted_getLsbD old hwarm,
      preserveMask_clear (.inr (.inr (.inl rfl))), preserveMask_clear (.inr (.inr (.inr rfl)))]
    exact ⟨Bool.and_false _, Bool.and_false _⟩
  have hstrobe : (asserted old pos).getLsbD 16 = false := by
    have hlws : 16 ≠ pos := by omega
    rw [asserted_getLsbD old hlws, hold, Bool.false_and]
  rcases Nat.lt_or_ge i 32 with hlt | hge
  · rw [written_getLsbD hlt hstrobe hcalm, asserted_getLsbD old hi]
    split
    · next h =>
      have hs := h.resolve_left h9
      rw [preserveMask_setting hs, Bool.and_true, hset i hs]
    · by_cases hc : i = 1 ∨ Change i
      · have hclear : i = 1 ∨ Change i ∨ i = 4 ∨ i = 31 := hc.imp_right .inl
        rw [preserveMask_clear hclear, Bool.and_false, Bool.false_and, Bool.not_false,
          Bool.and_true]
      · rw [decide_eq_false hc, Bool.and_false, Bool.not_false, Bool.and_true]
  · rw [BitVec.getLsbD_of_ge _ _ hge, BitVec.getLsbD_of_ge _ _ hge]

end PortScEntry

namespace PortReset
open PortScEntry

/-- The value that the next access writes was made from a reading whose settings still hold. -/
structure Inv (s : PortReset) : Prop where
  strobe : s.portsc.getLsbD 16 = false
  pending : ∀ old, s.point = .writePp old ∨ s.point = .writePr old →
    old.getLsbD 16 = false ∧ ∀ i, Setting i → old.getLsbD i = s.portsc.getLsbD i
  ordered : Ordered s.reads s.writes s.point

theorem runs_software (n : Nat) (s : PortReset) : Runs Step s (software^[n] s) := by
  induction n with
  | zero => exact .refl
  | succ n ih =>
    rw [Function.iterate_succ_apply']
    exact ih.tail (.software _)

theorem start_inv {portsc : BitVec 32} (h : portsc.getLsbD 16 = false) : Inv (start portsc) := by
  refine ⟨h, fun old hpoint => ?_, rfl, rfl⟩
  rcases hpoint with hpoint | hpoint <;> cases hpoint

/-- No access changes more than Port Power, and Port Reset where it is asserted. -/
theorem software_getLsbD {s : PortReset} (h : Inv s)
    (h4 : i = 4 → ∀ old, s.point ≠ .writePr old) (h9 : i ≠ 9) :
    s.software.portsc.getLsbD i = s.portsc.getLsbD i := by
  cases hpoint : s.point with
  | writePp old =>
    obtain ⟨hold, hset⟩ := h.pending old (.inl hpoint)
    rw [software, hpoint]
    exact written_asserted (.inr rfl) hold hset h9 h9
  | writePr old =>
    obtain ⟨hold, hset⟩ := h.pending old (.inr hpoint)
    rw [software, hpoint]
    exact written_asserted (.inl rfl) hold hset (fun hi => h4 hi old hpoint) h9
  | assertPp => rw [software, hpoint]; rfl
  | waitPp => rw [software, hpoint]; rfl
  | assertPr => rw [software, hpoint]; rfl
  | waitPr => rw [software, hpoint]; rfl
  | done => rw [software, hpoint]

theorem software_strobe {s : PortReset} (h : Inv s) : s.software.portsc.getLsbD 16 = false := by
  rw [software_getLsbD h (fun hi => absurd hi (by decide)) (by decide)]
  exact h.strobe

theorem software_ordered {s : PortReset} (h : Ordered s.reads s.writes s.point) :
    Ordered s.software.reads s.software.writes s.software.point := by
  obtain ⟨portsc, point, reads, writes⟩ := s
  cases point with
  | assertPp =>
    obtain ⟨rfl, rfl⟩ := h
    exact ⟨rfl, rfl⟩
  | writePp old =>
    obtain ⟨rfl, rfl⟩ := h
    exact ⟨old, [], List.forall_mem_nil _, rfl, rfl⟩
  | waitPp =>
    obtain ⟨old, off, hoff, rfl, rfl⟩ := h
    change Ordered (old :: off ++ [portsc]) _ (if portsc.getLsbD 9 then .assertPr else .waitPp)
    cases hon : portsc.getLsbD 9 with
    | true =>
      rw [if_pos rfl]
      exact ⟨old, off, portsc, hoff, hon, rfl, rfl⟩
    | false =>
      rw [if_neg Bool.false_ne_true]
      exact ⟨old, off ++ [portsc], List.forall_mem_append.2 ⟨hoff, List.forall_mem_singleton.2 hon⟩,
        rfl, rfl⟩
  | assertPr =>
    obtain ⟨old, off, on, hoff, hon, rfl, rfl⟩ := h
    exact ⟨old, off, on, hoff, hon, List.append_assoc _ _ _, rfl⟩
  | writePr old' =>
    obtain ⟨old, off, on, hoff, hon, rfl, rfl⟩ := h
    exact ⟨old, off, on, old', [], hoff, hon, List.forall_mem_nil _, rfl, rfl⟩
  | waitPr =>
    obtain ⟨old, off, on, old', busy, hoff, hon, hbusy, rfl, rfl⟩ := h
    change Ordered (old :: off ++ on :: old' :: busy ++ [portsc]) _
      (if portsc.getLsbD 4 then .waitPr else .done)
    cases hpr : portsc.getLsbD 4 with
    | true =>
      rw [if_pos rfl]
      exact ⟨old, off, on, old', busy ++ [portsc], hoff, hon,
        List.forall_mem_append.2 ⟨hbusy, List.forall_mem_singleton.2 hpr⟩,
        List.append_assoc _ _ _, rfl⟩
    | false =>
      rw [if_neg Bool.false_ne_true]
      exact ⟨old, off, on, old', busy, portsc, hoff, hon, hbusy, hpr, rfl, rfl⟩
  | done => exact h

theorem software_pending {s : PortReset}
    (h : s.software.point = .writePp old ∨ s.software.point = .writePr old) :
    old = s.portsc ∧ s.software.portsc = s.portsc := by
  obtain ⟨portsc, point, reads, writes⟩ := s
  cases point with
  | assertPp =>
    rcases h with h | h <;> cases h
    exact ⟨rfl, rfl⟩
  | assertPr =>
    rcases h with h | h <;> cases h
    exact ⟨rfl, rfl⟩
  | writePp _ => rcases h with h | h <;> cases h
  | writePr _ => rcases h with h | h <;> cases h
  | done => rcases h with h | h <;> cases h
  | waitPp =>
    change (if portsc.getLsbD 9 then ResetPoint.assertPr else .waitPp) = _ ∨
      (if portsc.getLsbD 9 then ResetPoint.assertPr else .waitPp) = _ at h
    split at h
    · rcases h with h | h <;> cases h
    · rcases h with h | h <;> cases h
  | waitPr =>
    change (if portsc.getLsbD 4 then ResetPoint.waitPr else .done) = _ ∨
      (if portsc.getLsbD 4 then ResetPoint.waitPr else .done) = _ at h
    split at h
    · rcases h with h | h <;> cases h
    · rcases h with h | h <;> cases h

theorem software_inv {s : PortReset} (h : Inv s) : Inv s.software := by
  refine ⟨software_strobe h, fun old hpoint => ?_, software_ordered h.ordered⟩
  obtain ⟨rfl, hsame⟩ := software_pending hpoint
  rw [hsame]
  exact ⟨h.strobe, fun _ _ => rfl⟩

theorem hardware_inv {s : PortReset} {v : BitVec 32} (h : Inv s)
    (hv : HardwareChange s.portsc v) : Inv { s with portsc := v } := by
  refine ⟨hv.strobe, fun old hpoint => ?_, h.ordered⟩
  obtain ⟨hold, hset⟩ := h.pending old hpoint
  exact ⟨hold, fun i hi => (hset i hi).trans (hv.settings i hi).symm⟩

theorem step_inv {s t : PortReset} (h : Inv s) (hst : Step s t) : Inv t := by
  cases hst with
  | software => exact software_inv h
  | hardware v hv => exact hardware_inv h hv

structure Keeps (s t : PortReset) : Prop where
  changes : ∀ i, Change i → s.portsc.getLsbD i = true → t.portsc.getLsbD i = true
  settings : ∀ i, Setting i → t.portsc.getLsbD i = s.portsc.getLsbD i

theorem step_keeps {s t : PortReset} (h : Inv s) (hst : Step s t) : s.Keeps t := by
  cases hst with
  | software =>
    refine ⟨fun i hi hbit => ?_, fun i hi => ?_⟩
    · unfold Change at hi
      rwa [software_getLsbD h (fun h4 => by omega) (by omega)]
    · unfold Setting at hi
      exact software_getLsbD h (fun h4 => by omega) (by omega)
  | hardware v hv => exact ⟨hv.changes, hv.settings⟩

theorem runs_keeps {s t : PortReset} (h : Inv s) (hrun : Runs Step s t) : Inv t ∧ s.Keeps t := by
  induction hrun with
  | refl => exact ⟨h, fun _ _ hbit => hbit, fun _ _ => rfl⟩
  | tail _ hst ih =>
    obtain ⟨hinv, hkeep⟩ := ih
    have hstep := step_keeps hinv hst
    exact ⟨step_inv hinv hst, fun i hi hbit => hstep.changes i hi (hkeep.changes i hi hbit),
      fun i hi => (hstep.settings i hi).trans (hkeep.settings i hi)⟩

end PortReset

def XhcDevice.Shows (xhc : XhcDevice) (k : Nat) (vs : List (BitVec 32)) : Prop :=
  ∀ i v, vs[i]? = some v → xhc.readings (k + i) = v

namespace XhcDevice
variable {xhc : XhcDevice}

theorem Shows.head (h : xhc.Shows k (v :: vs)) : xhc.readings k = v := h 0 v rfl

theorem Shows.tail (h : xhc.Shows k (v :: vs)) : xhc.Shows (k + 1) vs := by
  intro i u hu
  have hshift : k + 1 + i = k + (i + 1) := by omega
  rw [hshift]
  exact h (i + 1) u hu

theorem Shows.right (h : xhc.Shows k (us ++ vs)) : xhc.Shows (k + us.length) vs := by
  induction us generalizing k with
  | nil => exact h
  | cons u us ih =>
    have hlen : k + (u :: us).length = k + 1 + us.length := by
      rw [List.length_cons]
      omega
    rw [hlen]
    exact ih h.tail

end XhcDevice

namespace PortScEntry
variable {xhc : XhcDevice} {s : DeviceInit}

theorem bit_ok (pos : Nat) (hpos : pos < 32) :
    bit xhc pos s = .ok ((xhc.readings s.reads).getLsbD pos) { s with reads := s.reads + 1 } := by
  rw [← land_bit_ne _ hpos]
  rfl

theorem assertBit_ok (ptr : BitVec 64) (pos : Nat) : assertBit xhc ptr pos s =
    .ok () { s with reads := s.reads + 1, writes := s.writes ++
      [(ptr, asserted (xhc.readings s.reads) pos)] } := rfl

theorem waitWhile_ok {busy : DeviceM Bool} (p : BitVec 32 → Bool)
    (hbusy : ∀ s, busy s = .ok (p (xhc.readings s.reads)) { s with reads := s.reads + 1 })
    (hvs : ∀ v ∈ vs, p v = true) (hlast : p last = false)
    (hshow : xhc.Shows s.reads (vs ++ last :: rest)) (hfuel : vs.length < fuel) :
    waitWhile fuel busy s = .ok () { s with reads := s.reads + (vs.length + 1) } := by
  rw [waitWhile]
  have hbody : ∀ s : DeviceInit,
      (do if ← busy then return .inl () else return .inr () : DeviceM (Unit ⊕ Unit)) s =
        .ok (if p (xhc.readings s.reads) then .inl () else .inr ())
          { s with reads := s.reads + 1 } := fun s => by
    rw [bind_of_ok (hbusy s)]
    split <;> rfl
  induction fuel generalizing vs s with
  | zero => exact absurd hfuel (Nat.not_lt_zero _)
  | succ fuel ih =>
    rw [loopFrom, bind_of_ok (hbody s)]
    cases vs with
    | nil =>
      rw [hshow.head, hlast]
      rfl
    | cons v vs =>
      obtain ⟨hv, hvs⟩ := List.forall_mem_cons.1 hvs
      rw [hshow.head, hv]
      have hrest := ih hvs (s := { s with reads := s.reads + 1 }) hshow.tail
        (Nat.lt_of_succ_lt_succ hfuel)
      have hsum : s.reads + 1 + (vs.length + 1) = s.reads + ((v :: vs).length + 1) := by
        rw [List.length_cons]
        omega
      rw [← hsum]
      exact hrest

theorem resetPort_ordered (h : PortReset.Ordered reads writes .done)
    (hshow : xhc.Shows s.reads reads) (hfuel : reads.length ≤ fuel) (ptr : BitVec 64) :
    resetPort xhc fuel ptr s = .ok () { s with
      reads := s.reads + reads.length, writes := s.writes ++ writes.map (ptr, ·) } := by
  obtain ⟨old, off, on, old', busy, last, hoff, hon, hbusy, hlast, rfl, rfl⟩ := h
  rw [List.append_assoc, List.cons_append] at hshow
  have hlen : (old :: off ++ on :: old' :: busy ++ [last]).length =
      1 + (off.length + 1) + 1 + (busy.length + 1) := by
    simp only [List.length_append, List.length_cons, List.length_nil]
    omega
  rw [hlen] at hfuel ⊢
  have hpp : ∀ s : DeviceInit, (do return !(← pp xhc) : DeviceM Bool) s =
      .ok (!(xhc.readings s.reads).getLsbD 9) { s with reads := s.reads + 1 } := fun s => by
    rw [pp, bind_of_ok (bit_ok 9 (by decide))]
    rfl
  have hpr : ∀ s : DeviceInit, pr xhc s =
      .ok ((xhc.readings s.reads).getLsbD 4) { s with reads := s.reads + 1 } := fun s =>
    bit_ok 4 (by decide)
  have hoff : ∀ v ∈ off, (!v.getLsbD 9) = true := fun v hv => by rw [hoff v hv]; rfl
  have hon : (!on.getLsbD 9) = false := by rw [hon]; rfl
  have hshow' := hshow.tail.right.tail
  rw [resetPort, assertPp, bind_of_ok (assertBit_ok ptr 9), hshow.head]
  refine (bind_of_ok (waitWhile_ok _ hpp hoff hon hshow.tail (by omega))).trans ?_
  have hold' : xhc.readings (s.reads + 1 + (off.length + 1)) = old' := hshow'.head
  rw [assertPr, bind_of_ok (assertBit_ok ptr 4)]
  refine (waitWhile_ok _ hpr hbusy hlast hshow'.tail (by omega)).trans ?_
  have hreads : s.reads + 1 + (off.length + 1) + 1 + (busy.length + 1) =
      s.reads + (1 + (off.length + 1) + 1 + (busy.length + 1)) := by omega
  dsimp only
  rw [hold', hreads, List.append_assoc]
  rfl

end PortScEntry

namespace PortReset
open PortScEntry

/-- What holds of a reset, wherever it is: the rest of the run loses no status and no setting, the
next access changes Port Power at most and Port Reset only where it is asserted, the accesses came
in order, and when it is over they are those of `reset_port` for the same readings. -/
structure Sound (s : PortReset) : Prop where
  keeps : ∀ t, Runs Step s t → s.Keeps t
  narrow : ∀ i, (i = 4 → ∀ old, s.point ≠ .writePr old) → i ≠ 9 →
    s.software.portsc.getLsbD i = s.portsc.getLsbD i
  ordered : Ordered s.reads s.writes s.point
  returns : s.point = .done → ∀ xhc st fuel ptr, xhc.Shows st.reads s.reads →
    s.reads.length ≤ fuel → PortScEntry.resetPort xhc fuel ptr st = .ok () { st with
      reads := st.reads + s.reads.length, writes := st.writes ++ s.writes.map (ptr, ·) }

end PortReset

/-- However the controller changes the register in between. -/
theorem port_reset_sound {portsc : BitVec 32} (h : portsc.getLsbD 16 = false)
    (hrun : Runs PortReset.Step (.start portsc) s) : s.Sound := by
  have hinv := (PortReset.runs_keeps (PortReset.start_inv h) hrun).1
  refine ⟨fun t ht => (PortReset.runs_keeps hinv ht).2,
    fun i h4 h9 => PortReset.software_getLsbD hinv h4 h9, hinv.ordered, ?_⟩
  intro hdone xhc st fuel ptr hshow hfuel
  have hord := hinv.ordered
  rw [hdone] at hord
  exact PortScEntry.resetPort_ordered hord hshow hfuel ptr

/-- A port with the change bit of a connection leaves its reset enabled, with the change bit of the
reset as well. -/
theorem port_reset_sound_connected : PortReset.Sound ⟨0x00220603, .done,
    [0x00020601, 0x00020601, 0x00020601, 0x00020611, 0x00220603], [0x00000601, 0x00000611]⟩ := by
  have hreset : Runs PortReset.Step (.start 0x00020601) ⟨0x00020611, .waitPr,
      [0x00020601, 0x00020601, 0x00020601, 0x00020611], [0x00000601, 0x00000611]⟩ :=
    PortReset.runs_software 6 (.start 0x00020601)
  have hended : PortScEntry.HardwareChange 0x00020611 0x00220603 := by
    refine ⟨fun i hi => ?_, fun i hi => ?_, rfl⟩
    · have hall : ∀ i < 32, PortScEntry.Change i → (0x00020611#32).getLsbD i = true →
          (0x00220603#32).getLsbD i = true := by decide
      exact hall i (Nat.lt_of_le_of_lt hi.2 (by decide)) hi
    · have hall : ∀ i < 32, PortScEntry.Setting i →
          (0x00220603#32).getLsbD i = (0x00020611#32).getLsbD i := by decide
      refine hall i ?_ hi
      unfold PortScEntry.Setting at hi
      omega
  exact port_reset_sound (by decide) ((hreset.tail (.hardware _ _ hended)).tail (.software _))

end Wasabi
