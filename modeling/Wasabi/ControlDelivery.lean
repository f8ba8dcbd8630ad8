import Wasabi.ControlTransfer
import Wasabi.RingDelivery

namespace Wasabi
set_option autoImplicit true

def ringPort (doorbells : Nat) (event : Nat → GenericTrbEntry) :
    Port (EStateM Fault CommandRing) where
  push := CommandRing.push
  notifyEp slot dci := MonadExcept.ofExcept (Controller.notifyEp doorbells slot dci)
  wait ptr := pure (event ptr)

theorem ringPort_push {ring after : CommandRing} (h : CommandRing.push trb ring = .ok ptr after) :
    (ringPort n event).push trb ring = .ok ptr after := h

namespace SetupStageTrb

theorem new_ne_link {ty req : BitVec 8} {val idx len : BitVec 16} :
    (new ty req val idx len).toEntry.kind ≠ TrbType.link.value := by
  rw [kind_new]
  decide

end SetupStageTrb

namespace RingInv

variable {lim w v : Nat} {s t : RingSystem}

theorem unconsumed_push (h : RingInv lim s w v) (htaken : t.taken = s.taken)
    (hpushed : t.pushed = s.pushed ++ [x]) : t.unconsumed = s.unconsumed + 1 := by
  have hle := h.taken_le
  rw [RingSystem.unconsumed, RingSystem.unconsumed, htaken, hpushed, List.length_append,
    List.length_singleton]
  omega

theorem requestIn_runs (h : RingInv 14 s w v) (hpc : s.pc = .idle) (hroom : s.unconsumed + 3 ≤ 14)
    (hsetup : setup.toEntry.kind ≠ TrbType.link.value) :
    ∃ t, Runs (RingStep 14) s t ∧ t.pc = .idle ∧
      t.ring = endState (Controller.requestIn (ringPort n event) slot setup buf) s.ring ∧
      t.pushed.map Prod.snd = s.pushed.map Prod.snd ++
        endState (Controller.requestIn (recorder n event) slot setup buf) [] := by
  have hdata : (DataStageTrb.newIn buf).toEntry.kind ≠ TrbType.link.value := by
    simp only [DataStageTrb.newIn, DataStageTrb.toEntry, GenericTrbEntry.kind]
    decide
  have hstatus : StatusStageTrb.newOut.toEntry.kind ≠ TrbType.link.value := by decide
  obtain ⟨s₁, ptr₁, _, _, hok₁, hruns₁, h₁, hpc₁, htaken₁, hpushed₁⟩ :=
    h.push_step (by omega) hpc hsetup (by omega)
  have hcount₁ := h.unconsumed_push htaken₁ hpushed₁
  obtain ⟨s₂, ptr₂, _, _, hok₂, hruns₂, h₂, hpc₂, htaken₂, hpushed₂⟩ :=
    h₁.push_step (by omega) hpc₁ hdata (by omega)
  have hcount₂ := h₁.unconsumed_push htaken₂ hpushed₂
  obtain ⟨s₃, ptr₃, _, _, hok₃, hruns₃, h₃, hpc₃, htaken₃, hpushed₃⟩ :=
    h₂.push_step (by omega) hpc₂ hstatus (by omega)
  refine ⟨s₃, (hruns₁.trans hruns₂).trans hruns₃, hpc₃, ?_, ?_⟩
  · symm
    rw [Controller.requestIn, endState_bind (ringPort_push hok₁),
      endState_bind (ringPort_push hok₂), endState_bind (ringPort_push hok₃)]
    apply endState_ofExcept_bind
    intro _
    exact transferResultOk_endState _ _
  · rw [requestIn_pushes, hpushed₃, hpushed₂, hpushed₁]
    simp only [List.map_append, List.map_cons, List.map_nil, List.append_assoc, List.nil_append]

theorem requestSet_runs (h : RingInv 14 s w v) (hpc : s.pc = .idle) (hroom : s.unconsumed + 3 ≤ 14)
    (hsetup : setup.toEntry.kind ≠ TrbType.link.value) :
    ∃ t, Runs (RingStep 14) s t ∧ t.pc = .idle ∧
      t.ring = endState (Controller.requestSet (ringPort n event) slot setup) s.ring ∧
      t.pushed.map Prod.snd = s.pushed.map Prod.snd ++
        endState (Controller.requestSet (recorder n event) slot setup) [] := by
  have hstatus : StatusStageTrb.newIn.toEntry.kind ≠ TrbType.link.value := by decide
  obtain ⟨s₁, ptr₁, _, _, hok₁, hruns₁, h₁, hpc₁, htaken₁, hpushed₁⟩ :=
    h.push_step (by omega) hpc hsetup (by omega)
  have hcount₁ := h.unconsumed_push htaken₁ hpushed₁
  obtain ⟨s₂, ptr₂, _, _, hok₂, hruns₂, h₂, hpc₂, htaken₂, hpushed₂⟩ :=
    h₁.push_step (by omega) hpc₁ hstatus (by omega)
  refine ⟨s₂, hruns₁.trans hruns₂, hpc₂, ?_, ?_⟩
  · symm
    rw [Controller.requestSet, endState_bind (ringPort_push hok₁),
      endState_bind (ringPort_push hok₂)]
    apply endState_ofExcept_bind
    intro _
    exact transferResultOk_endState _ _
  · rw [requestSet_pushes, hpushed₂, hpushed₁]
    simp only [List.map_append, List.map_cons, List.map_nil, List.append_assoc, List.nil_append]

theorem request_runs (h : RingInv 14 s w v) (hpc : s.pc = .idle) (hroom : s.unconsumed + 3 ≤ 14)
    (r : ControlRequest) :
    ∃ t, Runs (RingStep 14) s t ∧ t.pc = .idle ∧
      t.ring = endState (r.run (ringPort n event) slot) s.ring ∧
      t.pushed.map Prod.snd = s.pushed.map Prod.snd ++ r.pushed n event slot := by
  cases r with
  | descriptor => exact h.requestIn_runs hpc hroom SetupStageTrb.new_ne_link
  | reportBytes => exact h.requestIn_runs hpc hroom SetupStageTrb.new_ne_link
  | setConfig => exact h.requestSet_runs hpc hroom SetupStageTrb.new_ne_link
  | setInterface => exact h.requestSet_runs hpc hroom SetupStageTrb.new_ne_link
  | setProtocol => exact h.requestSet_runs hpc hroom SetupStageTrb.new_ne_link
  | descriptorForInterface => exact h.requestIn_runs hpc hroom SetupStageTrb.new_ne_link

end RingInv

/-- A request that starts with room on the ring of its endpoint reaches the controller whole, behind
what was pushed before. -/
theorem control_request_delivers (hring : CommandRing.default base hb = .ok ring)
    (hs : Runs (RingStep 14) (.init ring) s) (hpc : s.pc = .idle) (hroom : s.unconsumed + 3 ≤ 14)
    (r : ControlRequest) :
    ∃ t u, Runs (RingStep 14) s t ∧ t.ring = endState (r.run (ringPort n event) slot) s.ring ∧
      Runs (RingStep 14) t u ∧ u.taken.map (·.2.contents) =
        s.pushed.map (·.2.contents) ++ (r.pushed n event slot).map GenericTrbEntry.contents := by
  obtain ⟨w, v, h⟩ := RingInv.of_runs (by omega) hring hs
  obtain ⟨t, hruns, hidle, hend, hpushed⟩ := h.request_runs hpc hroom r
  obtain ⟨w', v', h'⟩ := h.of_runs_from (by omega) hruns
  obtain ⟨u, hdrain, hkept, htaken⟩ := h'.drains (Nat.le_refl 14) hidle
  have hsnd := congrArg (List.map Prod.snd) htaken
  have hcontents := congrArg (List.map GenericTrbEntry.contents) hpushed
  simp only [List.map_map, List.map_append] at hsnd hcontents
  refine ⟨t, u, hruns, hend, hdrain, ?_⟩
  exact hsnd.trans hcontents

end Wasabi
