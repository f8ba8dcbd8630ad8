import Wasabi.RegisterPair

namespace Wasabi
set_option autoImplicit true

structure VendorDeviceId where
  vendor : Nat
  device : Nat
  deriving DecidableEq, Repr

/-- `Result::ok`. What panics is not caught. -/
def toOk : Except Fault α → Except Fault (Option α)
  | .ok a => .ok (some a)
  | .error (.err _) => .ok none
  | .error e => .error e

def PciXhciDriver.supports (vp : VendorDeviceId) : Bool :=
  decide (vp ∈ [⟨0x1b36, 0x000d⟩, ⟨0x8086, 0x31a8⟩, ⟨0x8086, 0x02ed⟩])

/-- Registers of which some bits, those of the status, are cleared by writing 1. -/
structure ConfigSpace extends Registers where
  clears : Nat → UInt8

namespace ConfigSpace

def store (this : ConfigSpace) (a n v : Nat) : ConfigSpace where
  mem b :=
    if a ≤ b ∧ b < a + n then
      let byte := UInt8.ofNat (v / 256 ^ (b - a))
      (this.mem b &&& ~~~this.writable b &&& ~~~(byte &&& this.clears b)) |||
        (byte &&& this.writable b)
    else this.mem b
  writable := this.writable
  stores := this.stores ++ [(a, v)]
  clears := this.clears

end ConfigSpace

structure PciProbe where
  config : ConfigSpace
  attached : List (BusDeviceFunction × BarMem64)

abbrev ProbeM := EStateM Fault PciProbe

/-- The registers of a BAR have no bits that are cleared by writing 1. -/
def onRegisters (x : EStateM Fault Registers α) : ProbeM α := fun s =>
  match x s.config.toRegisters with
  | .ok a r => .ok a { s with config := { s.config with toRegisters := r } }
  | .error e r => .error e { s with config := { s.config with toRegisters := r } }

inductive ProbeLog where
  | found (vd : VendorDeviceId)
  | failed (msg : String)
  deriving DecidableEq, Repr

namespace Pci

def readVendorIdAndDeviceId (pci : Pci) (m : Mem) (id : BusDeviceFunction) :
    Except Fault (Option VendorDeviceId) := do
  match ← toOk (pci.readRegisterU16 m id 0) with
  | none => return none
  | some vendor =>
    match ← toOk (pci.readRegisterU16 m id 2) with
    | none => return none
    | some device =>
      if vendor = 0xffff ∧ device = 0xffff then return none
      else return some ⟨vendor, device⟩

def setCommandAndStatusFlags (pci : Pci) (bdf : BusDeviceFunction) (flags : Nat) : ProbeM Unit := do
  let cmdAndStatus ← MonadExcept.ofExcept (pci.readRegisterU32 (← get).config.mem bdf 0x04)
  let ecmBase ← MonadExcept.ofExcept (pci.ecmBase bdf)
  let p ← MonadExcept.ofExcept
    (ConfigRegisters.pointer 4 ecmBase 0x04 "PCI ConfigRegisters write out of range")
  modify fun s => { s with config := s.config.store p 4 (flags ||| cmdAndStatus) }

def enableBusMaster (pci : Pci) (bdf : BusDeviceFunction) : ProbeM Unit :=
  setCommandAndStatusFlags pci bdf (1 <<< 2)

def disableInterrupt (pci : Pci) (bdf : BusDeviceFunction) : ProbeM Unit :=
  setCommandAndStatusFlags pci bdf (1 <<< 10)

section
variable (pci : Pci) (start : List (BusDeviceFunction × BarMem64) → Except Fault Unit)

/-- `PciXhciDriver::attach`; `start` is how it goes on with the BAR, outside of the configuration
space. -/
def attach (bdf : BusDeviceFunction) : ProbeM Unit := do
  disableInterrupt pci bdf
  enableBusMaster pci bdf
  let bar0 ← onRegisters (tryBar0Mem64 pci bdf)
  modify fun s => { s with attached := s.attached ++ [(bdf, bar0)] }
  MonadExcept.ofExcept (start (← get).attached)

/-- The body of the loop of `probe_devices`. -/
def probeDevice (bdf : BusDeviceFunction) : ProbeM (List ProbeLog) := do
  match ← MonadExcept.ofExcept (pci.readVendorIdAndDeviceId (← get).config.mem bdf) with
  | none => return []
  | some vd =>
    if PciXhciDriver.supports vd then
      tryCatch (do attach pci start bdf; return [.found vd]) fun e => match e with
        | .err msg => return [.found vd, .failed msg]
        | e => throw e
    else return [.found vd]

def probeLoop : List BusDeviceFunction → ProbeM (List ProbeLog)
  | [] => return []
  | bdf :: rest => do
    let logs ← probeDevice pci start bdf
    return logs ++ (← probeLoop rest)

def probeDevices : ProbeM (List ProbeLog) := probeLoop pci start BusDeviceFunction.iter

end

/-- What stands at the vendor and device id of a function; all ones if there is none. -/
def identity (pci : Pci) (m : Mem) (bdf : BusDeviceFunction) : Option VendorDeviceId :=
  let vd : VendorDeviceId := ⟨readLe m (pci.register bdf 0) 2, readLe m (pci.register bdf 2) 2⟩
  if vd = ⟨0xffff, 0xffff⟩ then none else some vd

def Supported (pci : Pci) (m : Mem) (bdf : BusDeviceFunction) : Prop :=
  ∃ vd, pci.identity m bdf = some vd ∧ PciXhciDriver.supports vd = true

def HasBar64 (pci : Pci) (m : Mem) (bdf : BusDeviceFunction) : Prop :=
  readLe m (pci.register bdf 0x10) 8 % 8 = 4

instance (pci : Pci) (m : Mem) (bdf : BusDeviceFunction) : Decidable (pci.Supported m bdf) :=
  match h : pci.identity m bdf with
  | none => isFalse fun ⟨_, hvd, _⟩ => by cases h.symm.trans hvd
  | some vd => decidable_of_iff (PciXhciDriver.supports vd = true)
      ⟨fun hs => ⟨vd, h, hs⟩, fun ⟨_, hvd, hs⟩ => by cases h.symm.trans hvd; exact hs⟩

instance (pci : Pci) (m : Mem) (bdf : BusDeviceFunction) : Decidable (pci.HasBar64 m bdf) :=
  inferInstanceAs (Decidable (_ = _))

/-- Byte `i` of the command and the status once the driver has taken a function: bus master and
interrupt disable are set, as far as they can be written, and what was pending in the status is
cleared. -/
def taken (config : ConfigSpace) (a i : Nat) : UInt8 :=
  (config.mem (a + i) &&& ~~~config.writable (a + i) &&& ~~~config.clears (a + i)) |||
    (((if i < 2 then 4 else 0) ||| config.mem (a + i)) &&& config.writable (a + i))

def IsBar0 (pci : Pci) (this : Registers) (x : BusDeviceFunction × BarMem64) : Prop :=
  ∃ k type, Bar0 this (pci.register x.1 0x10) k x.2.addr type ∧ x.2.size = 2 ^ k

/-- What a probe of some functions does: in the configuration space it touches the command and the
status of the supported functions and nothing else, and the driver gets each of these that has a
64-bit BAR, in order. -/
structure Probed (pci : Pci) (bdfs : List BusDeviceFunction) (s t : PciProbe) : Prop where
  taken : ∀ bdf ∈ bdfs, pci.Supported s.config.mem bdf → ∀ i < 4,
    t.config.mem (pci.register bdf 4 + i) = taken s.config (pci.register bdf 4) i
  keeps : ∀ b, (∀ bdf ∈ bdfs, pci.Supported s.config.mem bdf →
    b < pci.register bdf 4 ∨ pci.register bdf 8 ≤ b) → t.config.mem b = s.config.mem b
  writable : t.config.writable = s.config.writable
  clears : t.config.clears = s.config.clears
  attached : ∃ more, t.attached = s.attached ++ more ∧
    more.map Prod.fst = bdfs.filter (fun bdf => pci.Supported s.config.mem bdf ∧
      pci.HasBar64 s.config.mem bdf) ∧ ∀ x ∈ more, pci.IsBar0 s.config.toRegisters x

end Pci

theorem taken_byte (m w c f : UInt8) :
    (m &&& ~~~w &&& ~~~((f ||| m) &&& c)) ||| ((f ||| m) &&& w) =
      (m &&& ~~~w &&& ~~~c) ||| ((f ||| m) &&& w) := by
  apply UInt8.toBitVec_inj.1
  simp only [UInt8.toBitVec_or, UInt8.toBitVec_and, UInt8.toBitVec_not]
  refine BitVec.eq_of_getLsbD_eq fun i hi => ?_
  simp only [BitVec.getLsbD_or, BitVec.getLsbD_and, BitVec.getLsbD_not, hi, decide_true,
    Bool.true_and]
  cases m.toBitVec.getLsbD i <;> cases w.toBitVec.getLsbD i <;> cases c.toBitVec.getLsbD i <;>
    cases f.toBitVec.getLsbD i <;> rfl

theorem taken_twice (m w c f g : UInt8) :
    ((m &&& ~~~w &&& ~~~c ||| (f ||| m) &&& w) &&& ~~~w &&& ~~~c |||
      (g ||| (m &&& ~~~w &&& ~~~c ||| (f ||| m) &&& w)) &&& w) =
      (m &&& ~~~w &&& ~~~c ||| (g ||| f ||| m) &&& w) := by
  apply UInt8.toBitVec_inj.1
  simp only [UInt8.toBitVec_or, UInt8.toBitVec_and, UInt8.toBitVec_not]
  refine BitVec.eq_of_getLsbD_eq fun i hi => ?_
  simp only [BitVec.getLsbD_or, BitVec.getLsbD_and, BitVec.getLsbD_not, hi, decide_true,
    Bool.true_and]
  cases m.toBitVec.getLsbD i <;> cases w.toBitVec.getLsbD i <;> cases c.toBitVec.getLsbD i <;>
    cases f.toBitVec.getLsbD i <;> cases g.toBitVec.getLsbD i <;> rfl

theorem flags_byte (m : Mem) (a flags : Nat) (hi : i < n) :
    UInt8.ofNat ((flags ||| readLe m a n) / 256 ^ i) =
      UInt8.ofNat (flags / 256 ^ i) ||| m (a + i) := by
  have hpow : 256 ^ i = 2 ^ (8 * i) := by
    rw [pow_mul]
    norm_num
  rw [← byte_readLe m a n hi, hpow, Nat.or_div_two_pow, UInt8.ofNat_or]

namespace ConfigSpace

def flagged (this : ConfigSpace) (a flags : Nat) : ConfigSpace :=
  this.store a 4 (flags ||| readLe this.mem a 4)

theorem flagged_inside (this : ConfigSpace) (a flags : Nat) (hi : i < 4) :
    (this.flagged a flags).mem (a + i) =
      (this.mem (a + i) &&& ~~~this.writable (a + i) &&& ~~~this.clears (a + i) |||
        (UInt8.ofNat (flags / 256 ^ i) ||| this.mem (a + i)) &&& this.writable (a + i)) := by
  rw [← taken_byte, flagged, store]
  dsimp only
  rw [if_pos (by omega), Nat.add_sub_cancel_left, flags_byte _ _ _ hi]

theorem flagged_outside (this : ConfigSpace) (a flags : Nat) (hb : b < a ∨ a + 4 ≤ b) :
    (this.flagged a flags).mem b = this.mem b := if_neg (by omega)

theorem flagged_taken (this : ConfigSpace) (a : Nat) (hi : i < 4) :
    ((this.flagged a (1 <<< 10)).flagged a (1 <<< 2)).mem (a + i) = Pci.taken this a i := by
  have hflags : UInt8.ofNat ((1 <<< 2) / 256 ^ i) ||| UInt8.ofNat ((1 <<< 10) / 256 ^ i) =
      if i < 2 then 4 else 0 := by
    obtain rfl | rfl | rfl | rfl : i = 0 ∨ i = 1 ∨ i = 2 ∨ i = 3 := by omega
    all_goals rfl
  rw [flagged_inside _ _ _ hi, flagged_inside _ _ _ hi]
  change (_ &&& ~~~this.writable (a + i) &&& ~~~this.clears (a + i) |||
    (_ ||| _) &&& this.writable (a + i)) = _
  rw [taken_twice, hflags]
  rfl

end ConfigSpace

namespace Pci

variable {pci : Pci} {bdf : BusDeviceFunction} {s t : PciProbe}

theorem setCommandAndStatusFlags_eq (hbase : pci.ecmRange.1 + 2 ^ 28 < 2 ^ 64) (flags : Nat) :
    setCommandAndStatusFlags pci bdf flags s =
      .ok () { s with config := s.config.flagged (pci.register bdf 4) flags } := by
  have hecm := ecmBase_eq hbase bdf
  have hread : pci.readRegisterU32 s.config.mem bdf 0x04 =
      .ok (readLe s.config.mem (pci.register bdf 4) 4) := by
    rw [readRegisterU32, hecm, ok_bind]
    rfl
  have hpointer : ConfigRegisters.pointer 4 (pci.register bdf 0) 0x04
      "PCI ConfigRegisters write out of range" = .ok (pci.register bdf 4) := rfl
  rw [setCommandAndStatusFlags, get_bind, ofExcept_bind hread, ofExcept_bind hecm,
    ofExcept_bind hpointer]
  rfl

theorem identity_eq (hbase : pci.ecmRange.1 + 2 ^ 28 < 2 ^ 64) (m : Mem) :
    pci.readVendorIdAndDeviceId m bdf = .ok (pci.identity m bdf) := by
  have hecm := ecmBase_eq hbase bdf
  have hvendor : pci.readRegisterU16 m bdf 0 = .ok (readLe m (pci.register bdf 0) 2) := by
    rw [readRegisterU16, hecm, ok_bind]
    rfl
  have hdevice : pci.readRegisterU16 m bdf 2 = .ok (readLe m (pci.register bdf 2) 2) := by
    rw [readRegisterU16, hecm, ok_bind]
    rfl
  rw [readVendorIdAndDeviceId, hvendor, hdevice]
  simp only [toOk, ok_bind, identity, VendorDeviceId.mk.injEq]
  split <;> rfl

theorem bar_type (m : Mem) (a : Nat) : readLe m a 8 &&& 0b0111 = readLe m a 8 % 8 :=
  Nat.and_two_pow_sub_one_eq_mod _ 3

theorem tryBar0_other (hbase : pci.ecmRange.1 + 2 ^ 28 < 2 ^ 64) {this : Registers}
    (h : ¬pci.HasBar64 this.mem bdf) :
    tryBar0Mem64 pci bdf this = .error (.err "Unexpected BAR0 Type") this := by
  have hread := readRegisterU64_eq (ecmBase_eq hbase bdf) 0x10 (by decide) rfl this
  rw [tryBar0Mem64, bind_of_ok hread, bar_type]
  exact congrFun (if_neg h) this

theorem tryBar0_sized (hbase : pci.ecmRange.1 + 2 ^ 28 < 2 ^ 64) {this : Registers}
    (h : Bar0 this (pci.register bdf 0x10) k base type) (hbar : pci.HasBar64 this.mem bdf) :
    ∃ bar this', tryBar0Mem64 pci bdf this = .ok bar this' ∧ this'.mem = this.mem ∧
      this'.writable = this.writable ∧ pci.IsBar0 this (bdf, bar) := by
  have hecm := ecmBase_eq hbase bdf
  have hread := readRegisterU64_eq hecm 0x10 (by decide) rfl
  have hwrite := writeRegisterU64_eq hecm 0x10 (by decide) rfl
  have hlt : readLe this.mem (pci.register bdf 0x10) 8 < 2 ^ 64 :=
    lt_of_lt_of_eq (readLe_lt _ _ 8) (by norm_num)
  have hvalue := h.value
  have hdvd := h.sixteen_dvd
  have htype := h.type_lt
  have haddr : readLe this.mem (pci.register bdf 0x10) 8 &&& complement 0b1111 = base := by
    rw [@land_complement_mask _ 16 hlt ⟨4, by omega, rfl⟩]
    omega
  have hreg : pci.register bdf 0 + 0x10 = pci.register bdf 0x10 := rfl
  rw [hreg] at hread hwrite
  rw [tryBar0Mem64, bind_of_ok (hread this), bar_type]
  have hbar' : readLe this.mem (pci.register bdf 0x10) 8 % 8 = 0b0100 := hbar
  rw [if_pos hbar', bind_of_ok (hwrite _ _), bind_of_ok (hread _), this.store_store, h.probed,
    ofExcept_bind h.size_eq, bind_of_ok (hwrite _ _), haddr]
  refine ⟨_, _, rfl, ?_, rfl, k, type, h, rfl⟩
  rw [Registers.store_store]
  have hmem := this.store_store (pci.register bdf 0x10) (complement 0)
  rw [(this.store (pci.register bdf 0x10) 8 (complement 0)).store_congr hmem rfl, this.store_back]

def claimed (pci : Pci) (bdf : BusDeviceFunction) (config : ConfigSpace) : ConfigSpace :=
  (config.flagged (pci.register bdf 4) (1 <<< 10)).flagged (pci.register bdf 4) (1 <<< 2)

theorem claimed_outside (config : ConfigSpace)
    (hb : b < pci.register bdf 4 ∨ pci.register bdf 8 ≤ b) :
    (pci.claimed bdf config).mem b = config.mem b := by
  have hend : pci.register bdf 8 = pci.register bdf 4 + 4 := rfl
  rw [claimed, ConfigSpace.flagged_outside _ _ _ (by omega),
    ConfigSpace.flagged_outside _ _ _ (by omega)]

theorem toNat_ne {other : BusDeviceFunction} (hne : other ≠ bdf) :
    other.id.toNat ≠ bdf.id.toNat := fun he =>
  hne (congrArg BusDeviceFunction.mk (BitVec.eq_of_toNat_eq he))

theorem register_apart (other bdf : BusDeviceFunction) (hoff : off + n ≤ 4 ∨ 8 ≤ off)
    (hend : off + n ≤ 4096) (hlo : pci.register bdf off ≤ b)
    (hhi : b < pci.register bdf off + n) :
    b < pci.register other 4 ∨ pci.register other 8 ≤ b := by
  rw [register] at hlo hhi
  rw [register, register]
  by_cases he : other = bdf
  · rw [he]
    omega
  · have hne := toNat_ne he
    omega

namespace Probed

theorem nil : pci.Probed [] s s where
  taken := fun _ h => absurd h List.not_mem_nil
  keeps := fun _ _ => rfl
  writable := rfl
  clears := rfl
  attached := ⟨[], (List.append_nil _).symm, rfl, fun _ h => absurd h List.not_mem_nil⟩

theorem ignored (h : ¬pci.Supported s.config.mem bdf) : pci.Probed [bdf] s s where
  taken := fun x hx hs => absurd (List.mem_singleton.1 hx ▸ hs) h
  keeps := fun _ _ => rfl
  writable := rfl
  clears := rfl
  attached := by
    refine ⟨[], (List.append_nil _).symm, ?_, fun _ h => absurd h List.not_mem_nil⟩
    rw [List.filter_cons_of_neg (by simp [h])]
    rfl

theorem single {this : Registers} {more : List (BusDeviceFunction × BarMem64)}
    (hmem : this.mem = (pci.claimed bdf s.config).mem)
    (hwritable : this.writable = s.config.writable)
    (hmore : more.map Prod.fst =
      [bdf].filter (fun bdf => pci.Supported s.config.mem bdf ∧ pci.HasBar64 s.config.mem bdf))
    (hbars : ∀ x ∈ more, pci.IsBar0 s.config.toRegisters x)
    (h : pci.Supported s.config.mem bdf) :
    pci.Probed [bdf] s ⟨⟨this, s.config.clears⟩, s.attached ++ more⟩ where
  taken := by
    intro x hx _ i hi
    rw [List.mem_singleton.1 hx]
    exact (congrFun hmem _).trans (s.config.flagged_taken _ hi)
  keeps := fun b hb =>
    (congrFun hmem b).trans (claimed_outside _ (hb bdf (List.mem_singleton.2 rfl) h))
  writable := hwritable
  clears := rfl
  attached := ⟨more, rfl, hmore, hbars⟩

variable {bdfs : List BusDeviceFunction}

theorem sameOn (h : pci.Probed bdfs s t) (hoff : off + n ≤ 4 ∨ 8 ≤ off) (hend : off + n ≤ 4096)
    (x : BusDeviceFunction) : SameOn s.config.mem t.config.mem (pci.register x off) n := by
  intro b hlo hhi
  exact h.keeps b fun bdf _ _ => register_apart bdf x hoff hend hlo hhi

theorem identity_eq (h : pci.Probed bdfs s t) (x : BusDeviceFunction) :
    pci.identity t.config.mem x = pci.identity s.config.mem x := by
  unfold identity
  rw [readLe_congr (h.sameOn (.inl (by decide)) (by decide) x),
    readLe_congr (h.sameOn (.inl (by decide)) (by decide) x)]

theorem supported_iff (h : pci.Probed bdfs s t) (x : BusDeviceFunction) :
    pci.Supported t.config.mem x ↔ pci.Supported s.config.mem x := by
  rw [Supported, Supported, h.identity_eq]

theorem bar_eq (h : pci.Probed bdfs s t) (x : BusDeviceFunction) :
    readLe t.config.mem (pci.register x 0x10) 8 = readLe s.config.mem (pci.register x 0x10) 8 :=
  readLe_congr (h.sameOn (.inr (by decide)) (by decide) x)

theorem bar0_iff (h : pci.Probed bdfs s t) (x : BusDeviceFunction) (k base type : Nat) :
    Bar0 t.config.toRegisters (pci.register x 0x10) k base type ↔
      Bar0 s.config.toRegisters (pci.register x 0x10) k base type := by
  constructor <;> intro hbar
  · exact ⟨h.writable ▸ hbar.writable, hbar.four_le, hbar.le, hbar.aligned, hbar.type_lt,
      h.bar_eq x ▸ hbar.value⟩
  · exact ⟨h.writable ▸ hbar.writable, hbar.four_le, hbar.le, hbar.aligned, hbar.type_lt,
      (h.bar_eq x).trans hbar.value⟩

theorem isBar0 (h : pci.Probed bdfs s t) {x : BusDeviceFunction × BarMem64}
    (hx : pci.IsBar0 t.config.toRegisters x) : pci.IsBar0 s.config.toRegisters x := by
  obtain ⟨k, type, hbar, hsize⟩ := hx
  exact ⟨k, type, (h.bar0_iff _ _ _ _).1 hbar, hsize⟩

theorem taken_eq (h : pci.Probed bdfs s t) {x : BusDeviceFunction} (hx : x ∉ bdfs) (hi : i < 4) :
    t.config.mem (pci.register x 4 + i) = s.config.mem (pci.register x 4 + i) := by
  refine h.keeps _ fun bdf hbdf _ => ?_
  have hne := toNat_ne (fun he : bdf = x => hx (he ▸ hbdf))
  rw [register, register, register]
  omega

theorem cons {u : PciProbe} (h : pci.Probed [bdf] s t) (hrest : pci.Probed bdfs t u)
    (hnew : bdf ∉ bdfs) : pci.Probed (bdf :: bdfs) s u where
  taken := by
    intro x hx hs i hi
    rcases List.mem_cons.1 hx with rfl | hx
    · rw [hrest.taken_eq hnew hi]
      exact h.taken x (List.mem_singleton.2 rfl) hs i hi
    · have hne : x ∉ [bdf] := fun he => hnew (List.mem_singleton.1 he ▸ hx)
      rw [hrest.taken x hx ((h.supported_iff x).2 hs) i hi, Pci.taken, Pci.taken,
        h.taken_eq hne hi, h.writable, h.clears]
  keeps := by
    intro b hb
    rw [hrest.keeps b fun x hx hs =>
      hb x (List.mem_cons_of_mem _ hx) ((h.supported_iff x).1 hs)]
    refine h.keeps b fun x hx hs => hb x ?_ hs
    exact List.mem_singleton.1 hx ▸ List.mem_cons_self
  writable := hrest.writable.trans h.writable
  clears := hrest.clears.trans h.clears
  attached := by
    obtain ⟨first, hfirst, hbdf, hbar⟩ := h.attached
    obtain ⟨more, hmore, hbdfs, hbars⟩ := hrest.attached
    refine ⟨first ++ more, ?_, ?_, ?_⟩
    · rw [hmore, hfirst, List.append_assoc]
    · have hsame : ∀ x, (pci.Supported t.config.mem x ∧ pci.HasBar64 t.config.mem x) ↔
          (pci.Supported s.config.mem x ∧ pci.HasBar64 s.config.mem x) := by
        intro x
        rw [h.supported_iff, HasBar64, HasBar64, h.bar_eq]
      simp only [hsame] at hbdfs
      rw [List.map_append, hbdf, hbdfs, ← List.filter_append]
      rfl
    · intro x hx
      rcases List.mem_append.1 hx with hx | hx
      · exact hbar x hx
      · exact h.isBar0 (hbars x hx)

end Probed

def found (logs : List ProbeLog) : List VendorDeviceId :=
  logs.filterMap fun log => match log with
    | .found vd => some vd
    | .failed _ => none

section
variable {start : List (BusDeviceFunction × BarMem64) → Except Fault Unit}

/-- Each supported function with a 64-bit BAR has one that can be sized. -/
def Sizable (pci : Pci) (s : PciProbe) : Prop :=
  ∀ bdf, pci.Supported s.config.mem bdf → pci.HasBar64 s.config.mem bdf →
    ∃ k base type, Bar0 s.config.toRegisters (pci.register bdf 0x10) k base type

theorem attach_of_ok (hbase : pci.ecmRange.1 + 2 ^ 28 < 2 ^ 64) {this : Registers}
    (h : tryBar0Mem64 pci bdf (pci.claimed bdf s.config).toRegisters = .ok bar this) :
    attach pci start bdf s =
      (MonadExcept.ofExcept (start (s.attached ++ [(bdf, bar)])) : ProbeM Unit)
        ⟨⟨this, s.config.clears⟩, s.attached ++ [(bdf, bar)]⟩ := by
  have hlift : onRegisters (tryBar0Mem64 pci bdf) { s with config := pci.claimed bdf s.config } =
      .ok bar ⟨⟨this, s.config.clears⟩, s.attached⟩ := by
    rw [onRegisters, h]
    rfl
  rw [attach, disableInterrupt, bind_of_ok (setCommandAndStatusFlags_eq hbase _), enableBusMaster,
    bind_of_ok (setCommandAndStatusFlags_eq hbase _)]
  change (onRegisters (tryBar0Mem64 pci bdf) >>= _)
    { s with config := pci.claimed bdf s.config } = _
  rw [bind_of_ok hlift]
  rfl

theorem attach_of_error (hbase : pci.ecmRange.1 + 2 ^ 28 < 2 ^ 64) {this : Registers}
    (h : tryBar0Mem64 pci bdf (pci.claimed bdf s.config).toRegisters = .error e this) :
    attach pci start bdf s = .error e ⟨⟨this, s.config.clears⟩, s.attached⟩ := by
  have hlift : onRegisters (tryBar0Mem64 pci bdf) { s with config := pci.claimed bdf s.config } =
      .error e ⟨⟨this, s.config.clears⟩, s.attached⟩ := by
    rw [onRegisters, h]
    rfl
  rw [attach, disableInterrupt, bind_of_ok (setCommandAndStatusFlags_eq hbase _), enableBusMaster,
    bind_of_ok (setCommandAndStatusFlags_eq hbase _)]
  change (onRegisters (tryBar0Mem64 pci bdf) >>= _)
    { s with config := pci.claimed bdf s.config } = _
  rw [bind_of_error hlift]

-- The lemmas above say what these do; what uses them need not look into them.
attribute [irreducible] readVendorIdAndDeviceId attach

theorem claimed_bar (pci : Pci) (bdf : BusDeviceFunction) (config : ConfigSpace) :
    readLe (pci.claimed bdf config).mem (pci.register bdf 0x10) 8 =
      readLe config.mem (pci.register bdf 0x10) 8 :=
  readLe_congr fun _ hlo hhi =>
    claimed_outside _ (register_apart bdf bdf (.inr (by decide)) (by decide) hlo hhi)

theorem claimed_bar0_iff (k base type : Nat) :
    Bar0 (pci.claimed bdf s.config).toRegisters (pci.register bdf 0x10) k base type ↔
      Bar0 s.config.toRegisters (pci.register bdf 0x10) k base type := by
  have hread := claimed_bar pci bdf s.config
  constructor <;> intro h
  · exact ⟨h.writable, h.four_le, h.le, h.aligned, h.type_lt, hread.symm.trans h.value⟩
  · exact ⟨h.writable, h.four_le, h.le, h.aligned, h.type_lt, hread.trans h.value⟩

theorem claimed_hasBar64_iff :
    pci.HasBar64 (pci.claimed bdf s.config).mem bdf ↔ pci.HasBar64 s.config.mem bdf := by
  rw [HasBar64, claimed_bar, HasBar64]

theorem attach_sized (hbase : pci.ecmRange.1 + 2 ^ 28 < 2 ^ 64) (hsized : pci.Sizable s)
    (h : pci.Supported s.config.mem bdf) (hbar : pci.HasBar64 s.config.mem bdf) :
    ∃ bar this, tryBar0Mem64 pci bdf (pci.claimed bdf s.config).toRegisters = .ok bar this ∧
      pci.Probed [bdf] s ⟨⟨this, s.config.clears⟩, s.attached ++ [(bdf, bar)]⟩ := by
  obtain ⟨k, base, type, hsize⟩ := hsized bdf h hbar
  obtain ⟨bar, this, hok, hsame, hwritable, k', type', hbar0, hlen⟩ :=
    tryBar0_sized hbase ((claimed_bar0_iff k base type).2 hsize) (claimed_hasBar64_iff.2 hbar)
  refine ⟨bar, this, hok, .single hsame hwritable ?_ ?_ h⟩
  · rw [List.filter_cons_of_pos (by simp [h, hbar])]
    rfl
  · intro x hx
    rw [List.mem_singleton.1 hx]
    exact ⟨k', type', (claimed_bar0_iff _ _ _).1 hbar0, hlen⟩

theorem attach_ends (hbase : pci.ecmRange.1 + 2 ^ 28 < 2 ^ 64) (hsized : pci.Sizable s)
    (h : pci.Supported s.config.mem bdf) :
    Ends (attach pci start bdf) s (fun _ t => pci.Probed [bdf] s t) fun e t =>
      pci.Probed [bdf] s t ∧ ((∀ msg, e ≠ .err msg) → start t.attached = .error e) := by
  by_cases hbar : pci.HasBar64 s.config.mem bdf
  · obtain ⟨bar, this, hok, hprobed⟩ := attach_sized hbase hsized h hbar
    rw [Ends, attach_of_ok hbase hok]
    exact Ends.ofExcept_cases (fun _ _ => hprobed) fun e he => ⟨hprobed, fun _ => he⟩
  · have hprobed : pci.Probed [bdf] s ⟨pci.claimed bdf s.config, s.attached ++ []⟩ := by
      refine .single rfl rfl ?_ (fun _ h => absurd h List.not_mem_nil) h
      rw [List.filter_cons_of_neg (by simp [hbar])]
      rfl
    rw [List.append_nil] at hprobed
    rw [Ends, attach_of_error hbase (tryBar0_other hbase (mt claimed_hasBar64_iff.1 hbar))]
    exact ⟨hprobed, fun hne => absurd rfl (hne _)⟩

theorem probeDevice_ends (hbase : pci.ecmRange.1 + 2 ^ 28 < 2 ^ 64) (hsized : pci.Sizable s) :
    Ends (probeDevice pci start bdf) s
      (fun logs t => pci.Probed [bdf] s t ∧
        found logs = [bdf].filterMap (pci.identity s.config.mem))
      fun e t => pci.Probed [bdf] s t ∧ start t.attached = .error e ∧ ∀ msg, e ≠ .err msg := by
  refine Ends.bind (Ends.get (Ends.bind (Ends.ofExcept (identity_eq hbase _) ?_)))
  cases hid : pci.identity s.config.mem bdf with
  | none =>
    refine Ends.pure ⟨.ignored ?_, ?_⟩
    · rintro ⟨vd, hvd, _⟩
      cases hid.symm.trans hvd
    · rw [List.filterMap_cons_none hid]
      rfl
  | some vd =>
    have hfound : found [.found vd] = [bdf].filterMap (pci.identity s.config.mem) := by
      rw [List.filterMap_cons_some hid]
      rfl
    dsimp only
    by_cases hvd : PciXhciDriver.supports vd = true
    · rw [if_pos hvd]
      refine Ends.tryCatch (Ends.bind ?_)
      refine (attach_ends hbase hsized ⟨vd, hid, hvd⟩).mono (fun _ t hprobed => ?_) fun e t he => ?_
      · exact Ends.pure ⟨hprobed, hfound⟩
      · obtain ⟨hprobed, hstart⟩ := he
        by_cases herr : ∃ msg, e = .err msg
        · obtain ⟨msg, rfl⟩ := herr
          exact Ends.pure ⟨hprobed, hfound⟩
        · have hne : ∀ msg, e ≠ .err msg := fun msg he => herr ⟨msg, he⟩
          have hlast := hstart hne
          cases e with
          | err msg => exact absurd rfl (hne msg)
          | _ => exact Ends.throw ⟨hprobed, hlast, hne⟩
    · rw [if_neg hvd]
      refine Ends.pure ⟨.ignored ?_, hfound⟩
      rintro ⟨vd', hvd', hs⟩
      cases hid.symm.trans hvd'
      exact hvd hs

/-- The loop, by induction on the functions that are left. -/
theorem probeLoop_ends (hbase : pci.ecmRange.1 + 2 ^ 28 < 2 ^ 64) (bdfs : List BusDeviceFunction)
    (hnodup : bdfs.Nodup) (s : PciProbe) (hsized : pci.Sizable s) :
    Ends (probeLoop pci start bdfs) s
      (fun logs t => pci.Probed bdfs s t ∧ found logs = bdfs.filterMap (pci.identity s.config.mem))
      fun e t => (∃ done, done <+: bdfs ∧ pci.Probed done s t) ∧ start t.attached = .error e ∧
        ∀ msg, e ≠ .err msg := by
  induction bdfs generalizing s with
  | nil => exact Ends.pure ⟨.nil, rfl⟩
  | cons bdf rest ih =>
    obtain ⟨hnew, hrest⟩ := List.nodup_cons.1 hnodup
    refine Ends.bind ((probeDevice_ends hbase hsized).mono (fun logs t h => ?_) fun e t h => ?_)
    · obtain ⟨hprobed, hfound⟩ := h
      have hsized' : pci.Sizable t := by
        intro x hs hbar
        rw [HasBar64, hprobed.bar_eq] at hbar
        obtain ⟨k, base, type, h⟩ := hsized x ((hprobed.supported_iff x).1 hs) hbar
        exact ⟨k, base, type, (hprobed.bar0_iff x k base type).2 h⟩
      have hsame : rest.filterMap (pci.identity t.config.mem) =
          rest.filterMap (pci.identity s.config.mem) :=
        congrArg (List.filterMap · rest) (funext hprobed.identity_eq)
      refine Ends.bind ((ih hrest t hsized').mono (fun more u h => ?_) fun e u h => ?_)
      · refine Ends.pure ⟨hprobed.cons h.1 hnew, ?_⟩
        rw [found, List.filterMap_append, ← found, ← found, hfound, h.2, hsame,
          ← List.filterMap_append]
        rfl
      · obtain ⟨⟨done, hpre, hdone⟩, hstart⟩ := h
        refine ⟨⟨bdf :: done, ?_, hprobed.cons hdone fun h => hnew (hpre.subset h)⟩, hstart⟩
        exact List.prefix_cons_inj bdf |>.2 hpre
    · exact ⟨⟨[bdf], List.prefix_append [bdf] rest, h.1⟩, h.2⟩

end

end Pci

theorem BusDeviceFunction.nodup_iter : iter.Nodup := by
  rw [iter, BusDeviceFunctionIterator.collect_eq _ (by decide)]
  refine List.Nodup.map_on (fun i hi j hj he => ?_) List.nodup_range'
  rw [List.mem_range'_1] at hi hj
  have hid := congrArg BitVec.toNat (congrArg BusDeviceFunction.id he)
  rw [BitVec.toNat_ofNat, BitVec.toNat_ofNat] at hid
  dsimp only at hi hj
  omega

/-- Probing the bus touches the command and the status of the supported controllers and nothing else
in the configuration space. It sets bus master and interrupt disable there and clears what is
pending in the status. Each such controller with a 64-bit BAR is handed over with the base and the
size of it, in order. A controller that does not start is passed over. The probe only stops where
the start of one panics. -/
theorem probe_devices_exact {pci : Pci} (hbase : pci.ecmRange.1 + 2 ^ 28 < 2 ^ 64)
    (start : List (BusDeviceFunction × BarMem64) → Except Fault Unit) (s : PciProbe)
    (hsized : pci.Sizable s) :
    Ends (pci.probeDevices start) s
      (fun logs t => pci.Probed BusDeviceFunction.iter s t ∧
        Pci.found logs = BusDeviceFunction.iter.filterMap (pci.identity s.config.mem))
      fun e t => (∃ done, done <+: BusDeviceFunction.iter ∧ pci.Probed done s t) ∧
        start t.attached = .error e ∧ ∀ msg, e ≠ .err msg :=
  Pci.probeLoop_ends hbase _ BusDeviceFunction.nodup_iter s hsized

def oneController : ConfigSpace where
  mem := writeLe (writeLe (fun _ => 0) 0xb0000010 8 0xc0000004) 0xb0000000 4 0x000d1b36
  writable b :=
    if b = 0xb0000004 ∨ b = 0xb0000005 then 0x06 else if b = 0xb0000011 then 0xc0
    else if 0xb0000012 ≤ b ∧ b < 0xb0000018 then 0xff else 0
  stores := []
  clears b := if b = 0xb0000007 then 0xf9 else 0

theorem oneController_sizable : (Pci.mk (0xb0000000, 0xb1000000)).Sizable ⟨oneController, []⟩ := by
  rintro bdf ⟨vd, hvd, hs⟩ _
  by_cases hbdf : bdf = ⟨0⟩
  · subst hbdf
    refine ⟨14, 0xc0000000, 4, ?_, by decide, by decide, by decide, by decide, by decide +kernel⟩
    decide +kernel
  · have hne : bdf.id.toNat ≠ 0 := Pci.toNat_ne hbdf
    have hword : ∀ i, readLe oneController.mem
        ((Pci.mk (0xb0000000, 0xb1000000)).register bdf i) 2 = 0 := by
      refine fun i => readLe_of_zero fun b hlo _ => ?_
      have hreg : (Pci.mk (0xb0000000, 0xb1000000)).register bdf i =
        0xb0000000 + bdf.id.toNat * 4096 + i := rfl
      rw [hreg] at hlo
      change writeLe (writeLe (fun _ => 0) 0xb0000010 8 0xc0000004) 0xb0000000 4 0x000d1b36 b = 0
      rw [writeLe, if_neg (by omega), writeLe, if_neg (by omega)]
    rw [Pci.identity, hword 0, hword 2] at hvd
    cases hvd
    exact absurd hs (by decide)

theorem probe_devices_exact_oneController :
    ∃ logs t, Pci.probeDevices ⟨0xb0000000, 0xb1000000⟩ (fun _ => .ok ()) ⟨oneController, []⟩ =
        .ok logs t ∧
      Pci.Probed ⟨0xb0000000, 0xb1000000⟩ BusDeviceFunction.iter ⟨oneController, []⟩ t ∧
      Pci.found logs =
        BusDeviceFunction.iter.filterMap
          (Pci.identity ⟨0xb0000000, 0xb1000000⟩ oneController.mem) :=
  (probe_devices_exact (by decide) _ _ oneController_sizable).returns fun _ _ h => nomatch h.2.1

end Wasabi
