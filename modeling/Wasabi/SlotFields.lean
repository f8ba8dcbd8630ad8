import Wasabi.BitField
import Wasabi.InputContext
import Wasabi.LastOf
import Wasabi.Outcome

namespace Wasabi
set_option autoImplicit true

/-- A setter that works in place. On an `Err` it has stored nothing yet. -/
def setter (set : σ → Except Fault σ) : EStateM Fault σ Unit := fun s =>
  match set s with
  | .ok s' => .ok () s'
  | .error e => .error e s

theorem setter_of_ok {set : σ → Except Fault σ} (h : set s = .ok s') :
    setter set s = .ok () s' := by
  rw [setter, h]

theorem setter_of_error {set : σ → Except Fault σ} (h : set s = .error e) :
    setter set s = .error e s := by
  rw [setter, h]

inductive SlotCall where
  | portSpeed (mode : UsbMode)
  | lastValidDci (dci : Nat)
  | rootHubPortNumber (port : Nat)

namespace SlotCall

def call (ctx : DeviceContext) : SlotCall → Except Fault DeviceContext
  | portSpeed mode => ctx.setPortSpeed mode
  | lastValidDci dci => ctx.setLastValidDci dci
  | rootHubPortNumber port => ctx.setRootHubPortNumber port

def run (c : SlotCall) : EStateM Fault DeviceContext Unit := setter fun ctx => c.call ctx

def runAll (calls : List SlotCall) (ctx : DeviceContext) : DeviceContext :=
  calls.foldl (fun ctx c => endState c.run ctx) ctx

def Accepted : SlotCall → Prop
  | portSpeed mode => mode.psi < 16
  | lastValidDci dci => dci ≤ 31
  | rootHubPortNumber port => 0 < port ∧ port < 256

def speed? : SlotCall → Option (BitVec 4)
  | portSpeed mode => if mode.psi < 16 then some (mode.psi.setWidth 4) else none
  | _ => none

def dci? : SlotCall → Option (BitVec 5)
  | lastValidDci dci => if dci ≤ 31 then some (BitVec.ofNat 5 dci) else none
  | _ => none

def port? : SlotCall → Option (BitVec 8)
  | rootHubPortNumber port => if 0 < port ∧ port < 256 then some (BitVec.ofNat 8 port) else none
  | _ => none

end SlotCall

abbrev speedField : BitField 32 := ⟨20, 4, by decide⟩

abbrev dciField : BitField 32 := ⟨27, 5, by decide⟩

abbrev portField : BitField 32 := ⟨16, 8, by decide⟩

/-- What the setters are for: from `ctx` to `ctx'` each field has become what was set last, and
nothing else has changed. -/
structure SlotFields (ctx : DeviceContext) (calls : List SlotCall) (ctx' : DeviceContext) :
    Prop where
  speed : speedField.get (ctx'.slotCtx.get 0) =
    (lastOf SlotCall.speed? calls).getD (speedField.get (ctx.slotCtx.get 0))
  dci : dciField.get (ctx'.slotCtx.get 0) =
    (lastOf SlotCall.dci? calls).getD (dciField.get (ctx.slotCtx.get 0))
  port : portField.get (ctx'.slotCtx.get 1) =
    (lastOf SlotCall.port? calls).getD (portField.get (ctx.slotCtx.get 1))
  bits₀ : ∀ i < 32, ¬speedField.Covers i → ¬dciField.Covers i →
    (ctx'.slotCtx.get 0).getLsbD i = (ctx.slotCtx.get 0).getLsbD i
  bits₁ : ∀ i < 32, ¬portField.Covers i →
    (ctx'.slotCtx.get 1).getLsbD i = (ctx.slotCtx.get 1).getLsbD i
  words : ∀ i : Fin 8, 2 ≤ i.val → ctx'.slotCtx.get i = ctx.slotCtx.get i
  endpoints : ctx'.epCtx = ctx.epCtx
  accepted : ∀ c ∈ calls, ∀ s, c.Accepted → ∃ s', c.run s = .ok () s'
  refused : ∀ c ∈ calls, ∀ s, ¬c.Accepted → ∃ msg, c.run s = .error (.err msg) s

namespace SlotCall

/-- What a call makes of dword 0; the speed is shifted out of its field. -/
def dword₀ (x : BitVec 32) : SlotCall → BitVec 32
  | portSpeed mode => if mode.psi < 16 then speedField.write 0 x else x
  | lastValidDci dci => if dci ≤ 31 then dciField.write (BitVec.ofNat 32 dci) x else x
  | rootHubPortNumber _ => x

def dword₁ (x : BitVec 32) : SlotCall → BitVec 32
  | rootHubPortNumber port =>
    if 0 < port ∧ port < 256 then portField.write (BitVec.ofNat 32 port) x else x
  | _ => x

theorem call_error (c : SlotCall) (ctx : DeviceContext) (h : ¬c.Accepted) :
    ∃ msg, c.call ctx = .error (.err msg) := by
  cases c <;> exact ⟨_, if_neg h⟩

structure Stored (c : SlotCall) (ctx ctx' : DeviceContext) : Prop where
  dword₀ : ctx'.slotCtx.get 0 = c.dword₀ (ctx.slotCtx.get 0)
  dword₁ : ctx'.slotCtx.get 1 = c.dword₁ (ctx.slotCtx.get 1)
  words : ∀ i : Fin 8, 2 ≤ i.val → ctx'.slotCtx.get i = ctx.slotCtx.get i
  endpoints : ctx'.epCtx = ctx.epCtx

theorem Stored.set₀ {c : SlotCall} (hlt : 0 < 8) (h : c.dword₀ (ctx.slotCtx.get 0) = x)
    (h₁ : c.dword₁ (ctx.slotCtx.get 1) = ctx.slotCtx.get 1) :
    Stored c ctx { ctx with slotCtx := ctx.slotCtx.set 0 x hlt } := by
  constructor
  case dword₀ => exact (Vector.getElem_set_self hlt).trans h.symm
  case dword₁ => exact (Vector.getElem_set_ne hlt (by decide) (by decide)).trans h₁.symm
  case words =>
    intro i hle
    exact Vector.getElem_set_ne hlt i.isLt (by omega)
  case endpoints => rfl

theorem Stored.set₁ {c : SlotCall} (hlt : 1 < 8) (h : c.dword₁ (ctx.slotCtx.get 1) = x)
    (h₀ : c.dword₀ (ctx.slotCtx.get 0) = ctx.slotCtx.get 0) :
    Stored c ctx { ctx with slotCtx := ctx.slotCtx.set 1 x hlt } := by
  constructor
  case dword₀ => exact (Vector.getElem_set_ne hlt (by decide) (by decide)).trans h₀.symm
  case dword₁ => exact (Vector.getElem_set_self hlt).trans h.symm
  case words =>
    intro i hle
    exact Vector.getElem_set_ne hlt i.isLt (by omega)
  case endpoints => rfl

theorem call_ok (c : SlotCall) (ctx : DeviceContext) (h : c.Accepted) :
    ∃ ctx', c.call ctx = .ok ctx' ∧ Stored c ctx ctx' := by
  cases c with
  | portSpeed mode =>
    have hpsi : mode.psi < 16 := h
    have hlost : mode.psi >>> 20 = 0#32 <<< 20 := by
      have hlt : mode.psi.toNat < 16 := BitVec.lt_def.1 h
      apply BitVec.eq_of_toNat_eq
      rw [BitVec.toNat_ushiftRight, Nat.shiftRight_eq_div_pow]
      exact Nat.div_eq_of_lt (by omega)
    refine ⟨_, if_pos hpsi, .set₀ (by decide) ?_ rfl⟩
    rw [SlotCall.dword₀, if_pos hpsi, hlost]
    rfl
  | lastValidDci dci =>
    have hdci : dci ≤ 31 := h
    exact ⟨_, if_pos hdci, .set₀ (by decide) (if_pos hdci) rfl⟩
  | rootHubPortNumber port =>
    have hport : 0 < port ∧ port < 256 := h
    exact ⟨_, if_pos hport, .set₁ (by decide) (if_pos hport) rfl⟩

theorem stored (c : SlotCall) (ctx : DeviceContext) : Stored c ctx (endState c.run ctx) := by
  by_cases h : c.Accepted
  · obtain ⟨ctx', hok, hstored⟩ := c.call_ok ctx h
    rwa [endState, run, setter_of_ok hok]
  · obtain ⟨msg, herr⟩ := c.call_error ctx h
    rw [endState, run, setter_of_error herr]
    refine ⟨?_, ?_, fun _ _ => rfl, rfl⟩ <;> cases c
    · exact (if_neg h).symm
    · exact (if_neg h).symm
    · rfl
    · rfl
    · rfl
    · exact (if_neg h).symm

end SlotCall

section
variable (x : BitVec 32) (c : SlotCall)

theorem dci_lt (h : dci ≤ 31) : (BitVec.ofNat 32 dci).toNat < 2 ^ dciField.width := by
  rw [BitVec.toNat_ofNat, Nat.mod_eq_of_lt (by omega)]
  exact Nat.lt_succ_of_le h

theorem port_lt (h : port < 256) : (BitVec.ofNat 32 port).toNat < 2 ^ portField.width := by
  rw [BitVec.toNat_ofNat, Nat.mod_eq_of_lt (by omega)]
  exact h

theorem speed_dword₀ :
    speedField.get (c.dword₀ x) = (c.speed?.map fun _ => 0).getD (speedField.get x) := by
  cases c with
  | portSpeed mode =>
    by_cases h : mode.psi < 16
    · rw [SlotCall.dword₀, SlotCall.speed?, if_pos h, if_pos h, BitField.get_write]
      rfl
    · rw [SlotCall.dword₀, SlotCall.speed?, if_neg h, if_neg h]
      rfl
  | lastValidDci dci =>
    by_cases h : dci ≤ 31
    · rw [SlotCall.dword₀, if_pos h]
      exact BitField.get_write_separate (dci_lt h) (by decide)
    · rw [SlotCall.dword₀, if_neg h]
      rfl
  | rootHubPortNumber port => rfl

theorem dci_dword₀ : dciField.get (c.dword₀ x) = c.dci?.getD (dciField.get x) := by
  cases c with
  | portSpeed mode =>
    by_cases h : mode.psi < 16
    · rw [SlotCall.dword₀, if_pos h]
      exact BitField.get_write_separate (by decide) (by decide)
    · rw [SlotCall.dword₀, if_neg h]
      rfl
  | lastValidDci dci =>
    by_cases h : dci ≤ 31
    · rw [SlotCall.dword₀, SlotCall.dci?, if_pos h, if_pos h, BitField.get_write,
        BitVec.setWidth_ofNat_of_le (by decide)]
      rfl
    · rw [SlotCall.dword₀, SlotCall.dci?, if_neg h, if_neg h]
      rfl
  | rootHubPortNumber port => rfl

theorem port_dword₁ : portField.get (c.dword₁ x) = c.port?.getD (portField.get x) := by
  cases c with
  | portSpeed mode => rfl
  | lastValidDci dci => rfl
  | rootHubPortNumber port =>
    by_cases h : 0 < port ∧ port < 256
    · rw [SlotCall.dword₁, SlotCall.port?, if_pos h, if_pos h, BitField.get_write,
        BitVec.setWidth_ofNat_of_le (by decide)]
      rfl
    · rw [SlotCall.dword₁, SlotCall.port?, if_neg h, if_neg h]
      rfl

theorem dword₀_elsewhere (hi : i < 32) (hspeed : ¬speedField.Covers i)
    (hdci : ¬dciField.Covers i) : (c.dword₀ x).getLsbD i = x.getLsbD i := by
  cases c with
  | portSpeed mode =>
    rw [SlotCall.dword₀]
    split
    · rw [BitField.getLsbD_write_of_lt (by decide) hi, if_neg hspeed]
    · rfl
  | lastValidDci dci =>
    by_cases h : dci ≤ 31
    · rw [SlotCall.dword₀, if_pos h, BitField.getLsbD_write_of_lt (dci_lt h) hi, if_neg hdci]
    · rw [SlotCall.dword₀, if_neg h]
  | rootHubPortNumber port => rfl

theorem dword₁_elsewhere (hi : i < 32) (hport : ¬portField.Covers i) :
    (c.dword₁ x).getLsbD i = x.getLsbD i := by
  cases c with
  | portSpeed mode => rfl
  | lastValidDci dci => rfl
  | rootHubPortNumber port =>
    by_cases h : 0 < port ∧ port < 256
    · rw [SlotCall.dword₁, if_pos h, BitField.getLsbD_write_of_lt (port_lt h.2) hi, if_neg hport]
    · rw [SlotCall.dword₁, if_neg h]

end

/-- The setters do what they are for in exactly those sequences that leave the speed at 0. -/
theorem slot_fields_iff (ctx : DeviceContext) (calls : List SlotCall) :
    SlotFields ctx calls (SlotCall.runAll calls ctx) ↔
      (lastOf SlotCall.speed? calls).getD 0 = 0 := by
  have hspeed : speedField.get ((SlotCall.runAll calls ctx).slotCtx.get 0) =
      ((lastOf SlotCall.speed? calls).map fun _ => 0).getD
        (speedField.get (ctx.slotCtx.get 0)) := by
    rw [← lastOf_map]
    exact foldl_lastOf (g := fun ctx : DeviceContext => speedField.get (ctx.slotCtx.get 0))
      (fun s c => (congrArg speedField.get (c.stored s).dword₀).trans (speed_dword₀ _ c)) calls ctx
  constructor
  · intro h
    have hset := hspeed.symm.trans h.speed
    cases hlast : lastOf SlotCall.speed? calls with
    | none => rfl
    | some psi =>
      rw [hlast] at hset
      exact hset.symm
  · intro h
    constructor
    case speed =>
      rw [hspeed]
      cases hlast : lastOf SlotCall.speed? calls with
      | none => rfl
      | some psi =>
        rw [hlast] at h
        exact h.symm
    case dci =>
      exact foldl_lastOf (g := fun ctx : DeviceContext => dciField.get (ctx.slotCtx.get 0))
        (fun s c => (congrArg dciField.get (c.stored s).dword₀).trans (dci_dword₀ _ c)) calls ctx
    case port =>
      exact foldl_lastOf (g := fun ctx : DeviceContext => portField.get (ctx.slotCtx.get 1))
        (fun s c => (congrArg portField.get (c.stored s).dword₁).trans (port_dword₁ _ c)) calls ctx
    case bits₀ =>
      intro i hi hs hd
      exact foldl_keeps (g := fun ctx : DeviceContext => (ctx.slotCtx.get 0).getLsbD i)
        (fun s c => by rw [(c.stored s).dword₀, dword₀_elsewhere _ c hi hs hd]) calls ctx
    case bits₁ =>
      intro i hi hp
      exact foldl_keeps (g := fun ctx : DeviceContext => (ctx.slotCtx.get 1).getLsbD i)
        (fun s c => by rw [(c.stored s).dword₁, dword₁_elsewhere _ c hi hp]) calls ctx
    case words =>
      intro i hle
      exact foldl_keeps (g := fun ctx : DeviceContext => ctx.slotCtx.get i)
        (fun s c => (c.stored s).words i hle) calls ctx
    case endpoints =>
      exact foldl_keeps (g := DeviceContext.epCtx) (fun s c => (c.stored s).endpoints) calls ctx
    case accepted =>
      intro c _ s ha
      obtain ⟨s', hok, _⟩ := c.call_ok s ha
      exact ⟨s', setter_of_ok hok⟩
    case refused =>
      intro c _ s ha
      obtain ⟨msg, herr⟩ := c.call_error s ha
      exact ⟨msg, setter_of_error herr⟩

theorem slot_fields_super_speed :
    ¬SlotFields .default [.portSpeed .superSpeed]
      (SlotCall.runAll [.portSpeed .superSpeed] .default) :=
  fun h => absurd h.speed (by decide)

end Wasabi
