import Wasabi.Bar
import Wasabi.Kernel

namespace Wasabi
set_option autoImplicit true

open Entry PML4

/-- `expect` on the result of a call panics on an `Err`. -/
def expect (x : EStateM Fault σ β) : EStateM Fault σ β := fun s =>
  match x s with
  | .error (.err _) s => .error .unwrap s
  | r => r

/-- `disable_cache`, on the page table that CR3 points to. -/
def BarMem64.disableCache (boxNew : BoxNew α) (cr3 : Nat) (bar : BarMem64) : Run α Unit := do
  let vstart := bar.addr
  let vend ← MonadExcept.ofExcept (checkedAdd bar.addr bar.size)
  expect (createMapping boxNew cr3 vstart vend vstart .readWriteIo)

def Uncached (m : Mem) (root v : Nat) : Prop :=
  ∃ e, translate m root v = some e ∧ e &&& complement attrMask = v ∧
    e &&& PageAttr.writeThrough ≠ 0 ∧ e &&& PageAttr.cacheDisable ≠ 0

section
variable {α : Type} {boxNew : BoxNew α} {Owns : List Nat → Machine α → Prop} {root v : Nat}

theorem expect_ok {x : EStateM Fault σ β} {s : σ} (h : x s = .ok b s') : expect x s = .ok b s' := by
  rw [expect, h]

theorem expect_err {x : EStateM Fault σ β} {s : σ} (h : x s = .error (.err msg) s') :
    expect x s = .error .unwrap s' := by
  rw [expect, h]

theorem uncached_of_walk (h : walk m root v = some (v ||| PageAttr.readWriteIo.bits))
    (hv : v < 2 ^ 48) (hva : v % 4096 = 0) : Uncached m root v := by
  have hbits : PageAttr.readWriteIo.bits < 4096 := by decide
  have hor := lor_eq_add hva hbits
  refine ⟨_, translate_of_walk h hva hbits, ?_, lor_land_ne_zero (by decide) v,
    lor_land_ne_zero (by decide) v⟩
  rw [land_not_attrMask (by omega)]
  omega

/-- A BAR that does not start on a page makes the kernel panic. -/
theorem BarMem64.disableCache_panics (hb : FreshTables boxNew Owns)
    (hserves : ∀ ts s, Owns ts s → ts.length ≤ maxTables → boxNew s ≠ none)
    (h : ∃ ts, Tables Owns root ts s) (bar : BarMem64) (hpos : 0 < bar.size)
    (hend : bar.addr + bar.size ≤ 2 ^ 48) (hpage : bar.addr % 4096 ≠ 0) :
    ∃ s', bar.disableCache boxNew root s = .error .unwrap s' := by
  have hmaps := createMapping_ends hb ⟨bar.addr, bar.addr + bar.size, bar.addr, .readWriteIo,
    by omega, hend, by omega, by omega⟩ h
  rw [BarMem64.disableCache, ofExcept_bind (checkedAdd_ok (by omega))]
  cases hx : createMapping boxNew root bar.addr (bar.addr + bar.size) bar.addr .readWriteIo s with
  | ok _ s' =>
    obtain ⟨addr, hm, hge, _⟩ := hmaps.of_ok hx
    rcases hm.aligned with he | hal
    · unfold MapRequest.stop at hge
      omega
    · exact absurd hal hpage
  | error e s' =>
    cases hmaps.of_error hx with
    | refused hn hm =>
      obtain ⟨ts, hts⟩ := hm.tables
      exact absurd hn (hserves ts s' hts.owns hts.length_le)
    | unaligned _ _ => exact ⟨s', expect_err hx⟩

/-- The remapping of a BAR returns exactly when the BAR starts on a page, and then the pages that it
touches are uncached and all others are translated as before. -/
theorem disable_cache_iff (boxNew : BoxNew α) (Owns : List Nat → Machine α → Prop)
    (hb : FreshTables boxNew Owns)
    (hserves : ∀ ts s, Owns ts s → ts.length ≤ maxTables → boxNew s ≠ none)
    (h : Owns [] s) (hnew : boxNew s = some (root, s0))
    (hrun : Runs (MappingStep boxNew root) s0 s1)
    (bar : BarMem64) (hpos : 0 < bar.size) (hend : bar.addr + bar.size ≤ 2 ^ 48) :
    (∃ s2, bar.disableCache boxNew root s1 = .ok () s2 ∧ ∀ v < 2 ^ 48, v % 4096 = 0 →
      if bar.addr < v + 4096 ∧ v < bar.addr + bar.size then Uncached s2.mem root v
      else translate s2.mem root v = translate s1.mem root v) ↔ bar.addr % 4096 = 0 := by
  have htables := tables_of_runs hb h hnew hrun
  constructor
  · rintro ⟨s2, hok, _⟩
    by_contra hpage
    obtain ⟨s', hpanic⟩ := bar.disableCache_panics hb hserves htables hpos hend hpage
    cases hok.symm.trans hpanic
  · intro hpage
    have hmaps := identity_ends hb htables bar.addr (bar.addr + bar.size) .readWriteIo hpage
      (by omega) hend
    obtain ⟨_, s2, hok, _, hw⟩ := hmaps.returns fun e s' hf => by
      obtain ⟨_, hn, ts, hts⟩ := hf
      exact hserves ts s' hts.owns hts.length_le hn
    rw [BarMem64.disableCache, ofExcept_bind (checkedAdd_ok (by omega))]
    refine ⟨s2, expect_ok hok, fun v hv hva => ?_⟩
    have hv' := hw v hv hva
    split
    · rw [if_pos (by omega)] at hv'
      exact uncached_of_walk hv' hv hva
    · rw [if_neg (by omega)] at hv'
      exact hv'

end

theorem nextPage_serves (h : OwnsBelow ts s) (hle : ts.length ≤ maxTables) : nextPage s ≠ none := by
  have hheap := h.1
  unfold maxTables at hle
  rw [nextPage, if_pos (by omega)]
  exact Option.some_ne_none _

theorem disable_cache_iff_small :
    (∃ s2, BarMem64.disableCache nextPage 4096 ⟨0xfe000000, 256⟩
        ⟨zeroFill (fun _ => 0) 4096 4096, 8192⟩ = .ok () s2 ∧ ∀ v < 2 ^ 48, v % 4096 = 0 →
      if 0xfe000000 < v + 4096 ∧ v < 0xfe000000 + 256 then Uncached s2.mem 4096 v
      else translate s2.mem 4096 v =
        translate (zeroFill (fun _ => 0) 4096 4096) 4096 v) ↔ 0xfe000000 % 4096 = 0 :=
  disable_cache_iff nextPage OwnsBelow nextPage_fresh (fun _ _ => nextPage_serves)
    (s := ⟨fun _ => 0, 4096⟩) ⟨rfl, List.forall_mem_nil _⟩ rfl .refl ⟨0xfe000000, 256⟩ (by decide)
    (by decide)

/-- A BAR of 256 bytes at its natural alignment, inside a page. -/
theorem disable_cache_panics :
    256 = 2 ^ 8 ∧ 0xfe000100 % 256 = 0 ∧ ∃ s', BarMem64.disableCache nextPage 4096 ⟨0xfe000100, 256⟩
      ⟨zeroFill (fun _ => 0) 4096 4096, 8192⟩ = .error .unwrap s' := by
  have hroot := (Tables.fresh (s := ⟨fun _ => 0, 4096⟩) nextPage_fresh
    ⟨rfl, List.forall_mem_nil _⟩ rfl).1
  exact ⟨rfl, rfl, BarMem64.disableCache_panics nextPage_fresh (fun _ _ => nextPage_serves)
    ⟨_, hroot⟩ ⟨0xfe000100, 256⟩ (by decide) (by decide) (by decide)⟩

end Wasabi
