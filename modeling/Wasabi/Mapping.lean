import Wasabi.PageWalk
import Wasabi.Runs

namespace Wasabi
set_option autoImplicit true

open Entry Table PML4

/-- What `Box::new` is relied on for. `Owns ts` holds while the tables `ts` are allocated; writing
an entry of one of them is no business of the allocator. -/
structure FreshTables (boxNew : BoxNew α) (Owns : List Nat → Machine α → Prop) : Prop where
  fresh : ∀ ts s t s', Owns ts s → boxNew s = some (t, s') →
    FreshTable ts s.mem s'.mem t ∧ Owns (t :: ts) s'
  write : ∀ ts s t i v, Owns ts s → t ∈ ts → i < 512 →
    Owns ts { s with mem := writeLe s.mem (entry t i) 8 v }

structure Tables (Owns : List Nat → Machine α → Prop) (root : Nat) (ts : List Nat)
    (s : Machine α) : Prop where
  owns : Owns ts s
  pages : PageTree s.mem root ts

section
variable {α : Type} {boxNew : BoxNew α} {Owns : List Nat → Machine α → Prop} {root : Nat}
  {ts : List Nat} {s s' : Machine α} {d k t i u : Nat} {post : Unit → Machine α → Prop}
  {fails : Fault → Machine α → Prop}

theorem ensurePopulated_ends (hb : FreshTables boxNew Owns) (h : Tables Owns root ts s)
    (hd : d < 3) (hk : k < 512 ^ d) (ht : tableAt s.mem root d k = some t) (hi : i < 512)
    (hpost : ∀ ts' s' u, Tables Owns root ts' s' → Grows root s.mem s'.mem →
      SameWalks root s.mem s'.mem → tableAt s'.mem root (d + 1) (k * 512 + i) = some u →
      post () s')
    (hfail : boxNew s = none → fails .outOfMemory s) :
    Ends (ensurePopulated boxNew (entry t i)) s post fails := by
  have hmem := h.pages.tree.reached d k t (by omega) hk ht
  refine Ends.bind (Ends.get ?_)
  cases hp : isPresent s.mem (entry t i) with
  | true =>
    have hu := (nodeAt_key hi ht).trans (nextTable_some hp)
    have hsame : SameWalks root s.mem s.mem := by
      refine ⟨fun v _ e he => he, fun v _ hn => ?_⟩
      rw [translate, hn]
      rfl
    exact hpost ts s _ h (.refl _ _) hsame hu
  | false =>
    refine Ends.bind (Ends.get ?_)
    rw [hp]
    cases hn : boxNew s with
    | none => exact hfail hn
    | some r =>
      obtain ⟨hfresh, howns⟩ := hb.fresh ts s r.1 r.2 h.owns hn
      obtain ⟨hpages, hu, hgrows, hwalks⟩ :=
        h.pages.populate hd hk ht hi (nextTable_none hp) hfresh rfl
      exact hpost _ _ _ ⟨hb.write _ _ _ _ _ howns (List.mem_cons_of_mem _ hmem) hi, hpages⟩
        hgrows hwalks hu

theorem tableMut_ends {post : Nat → Machine α → Prop} (ht : tableAt s.mem root d k = some t)
    (hi : i < 512) (hu : tableAt s.mem root (d + 1) (k * 512 + i) = some u) (hpost : post u s) :
    Ends (tableMut (entry t i)) s post fails := by
  have hn := (nodeAt_key hi ht).symm.trans hu
  cases hp : isPresent s.mem (entry t i) with
  | false => exact nomatch (nextTable_none hp).symm.trans hn
  | true =>
    obtain rfl := Option.some.inj ((nextTable_some hp).symm.trans hn)
    refine Ends.bind (Ends.get ?_)
    rw [hp]
    exact hpost

end

/-- The bytes that one entry of a table of level `n + 1` is responsible for. -/
def span (n : Nat) : Nat := 2 ^ (n * 9 + 12)

theorem span_succ (n : Nat) : span (n + 1) = span n * 512 := by
  have hexp : (n + 1) * 9 + 12 = n * 9 + 12 + 9 := by omega
  rw [span, span, hexp, pow_add]
  norm_num

theorem le_span (n : Nat) : 4096 ≤ span n :=
  Nat.pow_le_pow_right (n := 2) (i := 12) (by omega) (by omega)

theorem calcIndex_span (n addr : Nat) : calcIndex (n + 1) addr = addr / span n % 512 :=
  calcIndex_eq n addr

theorem div_span (n addr : Nat) :
    addr / span (n + 1) * 512 + calcIndex (n + 1) addr = addr / span n := by
  rw [calcIndex_span, span_succ, ← Nat.div_div_eq_div_mul, Nat.div_add_mod']

/-- A request to map the pages from `virtStart` on, up to `virtEnd`, to physical addresses from
`phys` on. -/
structure MapRequest where
  virtStart : Nat
  virtEnd : Nat
  phys : Nat
  attr : PageAttr
  start_lt : virtStart < 2 ^ 48
  end_le : virtEnd ≤ 2 ^ 48
  start_bound : phys + virtStart < 2 ^ 64
  end_bound : phys + virtEnd < 2 ^ 64

namespace MapRequest

/-- Where the mapping really stops: the loops map one page before they look at the end. -/
def stop (r : MapRequest) : Nat := max r.virtEnd (r.virtStart + 1)

/-- The distance from the start of a page to the address that stands for it in the loops. -/
def offset (r : MapRequest) : Nat := r.virtStart % 4096

def leaf (r : MapRequest) (v : Nat) : Nat :=
  (r.phys + (v + r.offset - r.virtStart)) ||| r.attr.bits

def Visited (r : MapRequest) (addr v : Nat) : Prop :=
  r.virtStart ≤ v + r.offset ∧ v + r.offset < addr

theorem stop_le (r : MapRequest) : r.stop ≤ 2 ^ 48 := Nat.max_le.2 ⟨r.end_le, r.start_lt⟩

theorem stop_bound (r : MapRequest) : r.phys + r.stop ≤ 2 ^ 64 := by
  have hs := r.start_bound
  have he := r.end_bound
  unfold stop
  omega

instance (r : MapRequest) : Decidable (r.Visited addr v) := inferInstanceAs (Decidable (_ ∧ _))

end MapRequest

/-- The loop invariant of `create_mapping`: the pages before `addr` are mapped as requested, all
other pages are translated as in the memory `m` at the start. -/
structure Mapped (Owns : List Nat → Machine α → Prop) (root : Nat) (r : MapRequest) (m : Mem)
    (addr : Nat) (s : Machine α) : Prop where
  tables : ∃ ts, Tables Owns root ts s
  offset : addr % 4096 = r.offset
  start : r.virtStart ≤ addr
  aligned : addr = r.virtStart ∨ r.phys % 4096 = 0
  inside : ∀ v < 2 ^ 48, v % 4096 = 0 → r.Visited addr v → walk s.mem root v = some (r.leaf v)
  outside : ∀ v < 2 ^ 48, v % 4096 = 0 → ¬r.Visited addr v →
    translate s.mem root v = translate m root v

/-- The ways in which a mapping can fail: the allocator refuses a table, or the physical address is
not aligned, which shows at the first page. -/
inductive MapFails (boxNew : BoxNew α) (Owns : List Nat → Machine α → Prop) (root : Nat)
    (r : MapRequest) (m : Mem) : Fault → Machine α → Prop where
  | refused : boxNew s = none → Mapped Owns root r m addr s →
    MapFails boxNew Owns root r m .outOfMemory s
  | unaligned : r.phys % 4096 ≠ 0 → Mapped Owns root r m r.virtStart s →
      MapFails boxNew Owns root r m (.err "Physical address must be aligned to page size") s

/-- What the loops over one entry of level `n + 1` achieve: they stop behind the range of the entry
or behind the last requested page. -/
structure Done (Owns : List Nat → Machine α → Prop) (root : Nat) (r : MapRequest) (m : Mem)
    (n : Nat) (s : Machine α) (addr addr' : Nat) (s' : Machine α) : Prop where
  mapped : Mapped Owns root r m addr' s'
  grows : Grows root s.mem s'.mem
  lt : addr < addr'
  le : addr' ≤ (addr / span n + 1) * span n + r.offset
  full : r.stop ≤ addr' ∨ addr' = (addr / span n + 1) * span n + r.offset
  near : addr' < r.stop + 4096

section
variable {α : Type} {boxNew : BoxNew α} {Owns : List Nat → Machine α → Prop} {root : Nat}
  {r : MapRequest} {m : Mem} {s : Machine α} {addr d k t i : Nat}

theorem setPage_ends {post : Unit → Machine α → Prop} {fails : Fault → Machine α → Prop}
    (hok : x % 4096 = 0 → post () { s with mem := writeLe s.mem e 8 (x ||| attr.bits) })
    (herr : x % 4096 ≠ 0 → fails (.err "Physical address must be aligned to page size") s) :
    Ends (setPage e x attr) s post fails := by
  rw [setPage, land_attrMask]
  by_cases hx : x % 4096 = 0
  · rw [if_neg (not_not.2 hx)]
    exact Ends.modify (hok hx)
  · rw [if_pos hx]
    exact Ends.throw (herr hx)

theorem Mapped.page {s' : Machine α} (h : Mapped Owns root r m addr s)
    (hp : (r.phys + addr - r.virtStart) % 4096 = 0) (htables : ∃ ts, Tables Owns root ts s')
    (hwalk : ∀ v < 2 ^ 48, walk s'.mem root v = if v / 4096 = addr / 4096 then
      some ((r.phys + addr - r.virtStart) ||| r.attr.bits) else walk s.mem root v) :
    Mapped Owns root r m (addr + 4096) s' := by
  have hstart := h.start
  have hoff := h.offset
  simp only [MapRequest.offset] at hoff
  constructor
  case tables => exact htables
  case offset =>
    simp only [MapRequest.offset]
    omega
  case start => omega
  case aligned => exact .inr (by omega)
  case inside =>
    intro v hv hva hin
    simp only [MapRequest.Visited, MapRequest.offset] at hin
    rw [hwalk v hv]
    by_cases hpage : v / 4096 = addr / 4096
    · have hleaf : r.phys + (v + r.virtStart % 4096 - r.virtStart) =
          r.phys + addr - r.virtStart := by omega
      rw [if_pos hpage, MapRequest.leaf, MapRequest.offset, hleaf]
    · rw [if_neg hpage]
      apply h.inside v hv hva
      simp only [MapRequest.Visited, MapRequest.offset]
      omega
  case outside =>
    intro v hv hva hout
    simp only [MapRequest.Visited, MapRequest.offset] at hout
    rw [translate, hwalk v hv, if_neg (by omega)]
    apply h.outside v hv hva
    simp only [MapRequest.Visited, MapRequest.offset]
    omega

theorem mapPage_ends (hb : FreshTables boxNew Owns) (h : Mapped Owns root r m addr s)
    (haddr : addr < r.stop) (ht : tableAt s.mem root 3 (addr / span 1) = some t) :
    Ends (mapPage r.virtStart r.phys r.attr (entry t (calcIndex 1 addr)) addr) s
      (Done Owns root r m 0 s addr) (MapFails boxNew Owns root r m) := by
  have hstop := r.stop_le
  have hphys := r.stop_bound
  have hstart := h.start
  have hoff := h.offset
  simp only [MapRequest.offset] at hoff
  have hspan : span 0 = 4096 := rfl
  have hkey : addr / span 1 * 512 + calcIndex 1 addr = addr / 4096 := div_span 0 addr
  have hlt : addr / span 1 < 512 ^ 3 := by
    unfold span
    omega
  have hnext : (addr + pageSize) % 2 ^ 64 = addr + 4096 := by
    unfold pageSize
    omega
  refine Ends.bind (Ends.ofExcept (checkedAdd_ok (by omega)) (Ends.bind
    (Ends.ofExcept (checkedSub_ok (by omega))
      (Ends.bind (setPage_ends (fun hp => ?_) fun hp => ?_)))))
  · have hbits := r.attr.bits_lt
    have hx := lor_eq_add hp hbits
    obtain ⟨ts, hts⟩ := h.tables
    have hmem := hts.pages.tree.reached 3 _ t (by omega) hlt ht
    obtain ⟨hpages, hgrows, hwalk⟩ := hts.pages.setPage hlt ht (calcIndex_lt 0 addr)
      (x := (r.phys + addr - r.virtStart) ||| r.attr.bits) (by omega) rfl
    rw [hkey] at hwalk
    have hpage := h.page hp
      ⟨ts, hb.write _ _ _ _ _ hts.owns hmem (calcIndex_lt 0 addr), hpages⟩ hwalk
    have hoff' := hpage.offset
    apply Ends.pure
    rw [hnext]
    refine ⟨hpage, hgrows, by omega, ?_, .inr ?_, by omega⟩
    · rw [hspan]
      omega
    · rw [hspan]
      omega
  · have hfirst : addr = r.virtStart := by
      rcases h.aligned with he | hal
      · exact he
      · omega
    subst hfirst
    exact .unaligned (by omega) h

theorem tableLoop_ends {n : Nat} {body : Nat → Nat → Run α Nat}
    (hbody : ∀ s a, Mapped Owns root r m a s → a < r.stop →
      tableAt s.mem root d (a / span (n + 1)) = some t →
      Ends (body (entry t (calcIndex (n + 1) a)) a) s (Done Owns root r m n s a)
        (MapFails boxNew Owns root r m))
    (hd : d ≤ 3) (hk : addr / span (n + 1) < 512 ^ d) (h : Mapped Owns root r m addr s)
    (haddr : addr < r.stop) (ht : tableAt s.mem root d (addr / span (n + 1)) = some t) :
    Ends (tableLoop r.virtEnd (n + 1) t body addr) s (Done Owns root r m (n + 1) s addr)
      (MapFails boxNew Owns root r m) := by
  have hspan : 4096 ≤ span n := le_span n
  have hoff : r.offset < 4096 := Nat.mod_lt _ (by omega)
  have hdiv (a : Nat) : a / span (n + 1) = a / span n / 512 := by
    rw [span_succ, Nat.div_div_eq_div_mul]
  have hnext (a : Nat) : ((a / span n + 1) * span n + r.offset) / span n = a / span n + 1 :=
    key_div (by omega)
  refine Ends.loopFrom (fun a s' => Mapped Owns root r m a s' ∧ Grows root s.mem s'.mem ∧
    a < r.stop ∧ addr ≤ a ∧ a / span (n + 1) = addr / span (n + 1))
    (fun a => 511 - calcIndex (n + 1) a) (fun a s' hinv => ?_)
    ⟨h, .refl _ _, haddr, Nat.le_refl _, rfl⟩ (by omega)
  obtain ⟨hm, hgrows, ha, hle, hsame⟩ := hinv
  have hta : tableAt s'.mem root d (a / span (n + 1)) = some t :=
    hgrows d _ t hd (hsame ▸ hk) (hsame ▸ ht)
  refine Ends.bind ((hbody s' a hm ha hta).mono (fun a' s'' hdone => ?_) fun _ _ he => he)
  have hidx := calcIndex_span n a
  have hup : (a / span n + 1) * span n ≤ (addr / span (n + 1) + 1) * span (n + 1) := by
    rw [← hsame, hdiv, span_succ, Nat.mul_comm (span n), ← Nat.mul_assoc]
    exact Nat.mul_le_mul_right _ (by omega)
  have hle' := hdone.le
  have hlt := hdone.lt
  have hstart := hdone.mapped.start
  have hstart' := h.start
  have hstop' : r.stop = max r.virtEnd (r.virtStart + 1) := rfl
  have hexit : r.stop ≤ a' ∨ a' = (addr / span (n + 1) + 1) * span (n + 1) + r.offset →
      Done Owns root r m (n + 1) s addr a' s'' := fun hfull =>
    ⟨hdone.mapped, hgrows.trans hdone.grows, by omega, by omega, hfull, hdone.near⟩
  rcases Nat.lt_or_ge a' r.stop with hgo | hstop
  · rcases hdone.full with hf | hf
    · omega
    · by_cases hlast : calcIndex (n + 1) a + 1 ≥ 1 <<< 9
      · -- The last entry of the table ends where the range of the table ends.
        rw [if_pos (.inl hlast)]
        refine Ends.pure (hexit (.inr ?_))
        have hq : a / span n + 1 = (a / span n / 512 + 1) * 512 := by
          simp only [Nat.reduceShiftLeft] at hlast
          omega
        rw [hf, hq, ← hsame, hdiv, span_succ, Nat.mul_comm (span n), ← Nat.mul_assoc]
      · rw [if_neg (not_or.2 ⟨hlast, by omega⟩)]
        simp only [Nat.reduceShiftLeft] at hlast
        have hq' : a' / span n = a / span n + 1 := by rw [hf, hnext]
        have hidx' := calcIndex_span n a'
        refine Ends.pure ⟨⟨hdone.mapped, hgrows.trans hdone.grows, hgo, by omega, ?_⟩, by omega⟩
        rw [← hsame, hdiv, hdiv]
        omega
  · have hend : r.virtEnd ≤ a' := by omega
    rw [if_pos (.inr hend)]
    exact Ends.pure (hexit (.inl hstop))

/-- The nested loops, by induction on the level of the table. -/
theorem mapTable_ends (hb : FreshTables boxNew Owns) (n d : Nat) (hd : d + n = 3)
    (h : Mapped Owns root r m addr s) (haddr : addr < r.stop)
    (ht : tableAt s.mem root d (addr / span (n + 1)) = some t) :
    Ends (mapTable boxNew r.virtStart r.virtEnd r.phys r.attr n t addr) s
      (Done Owns root r m (n + 1) s addr) (MapFails boxNew Owns root r m) := by
  have hkey : ∀ a d n, d + n = 3 → a < r.stop → a / span (n + 1) < 512 ^ d := by
    intro a d n hd ha
    have hend := r.stop_le
    have h512 : (512 : Nat) = 2 ^ 9 := rfl
    have hexp : (n + 1) * 9 + 12 + 9 * d = 48 := by omega
    apply Nat.div_lt_of_lt_mul
    rw [span, h512, ← pow_mul, ← pow_add, hexp]
    omega
  induction n generalizing d addr s t with
  | zero =>
    obtain rfl : d = 3 := hd
    exact tableLoop_ends (fun s a hm ha hta => mapPage_ends hb hm ha hta) (Nat.le_refl 3)
      (hkey addr 3 0 rfl haddr) h haddr ht
  | succ n ih =>
    refine tableLoop_ends (fun s a hm ha hta => ?_) (by omega) (hkey addr d _ hd haddr) h haddr ht
    obtain ⟨ts, hts⟩ := hm.tables
    refine Ends.bind (ensurePopulated_ends hb hts (by omega) (hkey a d _ hd ha) hta
      (calcIndex_lt _ a) (fun ts' s' u hts' hgrows hwalks hu => ?_) fun hn => .refused hn hm)
    have hm' : Mapped Owns root r m a s' :=
      ⟨⟨ts', hts'⟩, hm.offset, hm.start, hm.aligned,
        fun v hv hva hin => hwalks.keeps v hv _ (hm.inside v hv hva hin),
        fun v hv hva hout => (hwalks.translate_eq hv).trans (hm.outside v hv hva hout)⟩
    have hta' := hgrows d _ t (by omega) (hkey a d _ hd ha) hta
    refine Ends.bind (tableMut_ends hta' (calcIndex_lt _ a) hu ?_)
    rw [div_span] at hu
    refine (ih (d + 1) (by omega) hm' ha hu).mono (fun a' s'' hdone => ?_) fun _ _ he => he
    exact ⟨hdone.mapped, hgrows.trans hdone.grows, hdone.lt, hdone.le, hdone.full, hdone.near⟩

theorem createMapping_ends (hb : FreshTables boxNew Owns) (r : MapRequest)
    (h : ∃ ts, Tables Owns root ts s) :
    Ends (createMapping boxNew root r.virtStart r.virtEnd r.phys r.attr) s
      (fun _ s' => ∃ addr, Mapped Owns root r s.mem addr s' ∧ r.stop ≤ addr ∧
        addr < r.stop + 4096) (MapFails boxNew Owns root r s.mem) := by
  have hstop := r.stop_le
  have hlt : r.virtStart < r.stop := lt_of_lt_of_le (Nat.lt_succ_self _) (Nat.le_max_right _ _)
  have hm : Mapped Owns root r s.mem r.virtStart s :=
    ⟨h, rfl, Nat.le_refl _, .inl rfl, fun v _ _ hin => absurd hin.2 (Nat.not_lt.2 hin.1),
      fun v _ _ _ => rfl⟩
  have hzero : r.virtStart / span 4 = 0 := Nat.div_eq_of_lt (by unfold span; omega)
  have hroot : tableAt s.mem root 0 (r.virtStart / span 4) = some root := rfl
  refine Ends.bind ((mapTable_ends hb 3 0 rfl hm hlt hroot).mono (fun addr s' hdone => ?_)
    fun _ _ he => he)
  refine Ends.pure ⟨addr, hdone.mapped, ?_, hdone.near⟩
  rcases hdone.full with hf | hf
  · exact hf
  · rw [hzero] at hf
    unfold span at hf
    omega

/-- Calls with any arguments keep the tables in order, whatever they map and however they end. -/
theorem mapPage_keeps (hb : FreshTables boxNew Owns) (h : ∃ ts, Tables Owns root ts s)
    (hk : k < 512 ^ 3) (ht : tableAt s.mem root 3 k = some t) (hi : i < 512)
    (vs phys : Nat) (attr : PageAttr) (addr : Nat) :
    Ends (mapPage vs phys attr (entry t i) addr) s
      (fun _ s' => (∃ ts, Tables Owns root ts s') ∧ Grows root s.mem s'.mem)
      fun _ s' => ∃ ts, Tables Owns root ts s' := by
  refine Ends.bind (Ends.ofExcept_cases (fun sum hsum => ?_) fun _ _ => h)
  have hlt : sum < 2 ^ 64 := by
    unfold checkedAdd at hsum
    split at hsum
    · cases hsum
      assumption
    · cases hsum
  refine Ends.bind (Ends.ofExcept_cases (fun physAddr hsub => ?_) fun _ _ => h)
  have hle : physAddr ≤ sum := by
    unfold checkedSub at hsub
    split at hsub
    · cases hsub
      omega
    · cases hsub
  refine Ends.bind (setPage_ends (fun hp => ?_) fun _ => h)
  have hbits := attr.bits_lt
  have hx := lor_eq_add hp hbits
  obtain ⟨ts, hts⟩ := h
  obtain ⟨hpages, hgrows, _⟩ := hts.pages.setPage (x := physAddr ||| attr.bits) hk ht hi
    (by omega) rfl
  have hmem := hts.pages.tree.reached 3 _ t (by omega) hk ht
  exact Ends.pure ⟨⟨ts, hb.write _ _ _ _ _ hts.owns hmem hi, hpages⟩, hgrows⟩

theorem tableLoop_keeps {body : Nat → Nat → Run α Nat}
    (hbody : ∀ s i a, (∃ ts, Tables Owns root ts s) → tableAt s.mem root d k = some t → i < 512 →
      Ends (body (entry t i) a) s
        (fun _ s' => (∃ ts, Tables Owns root ts s') ∧ Grows root s.mem s'.mem)
        fun _ s' => ∃ ts, Tables Owns root ts s')
    (hd : d ≤ 3) (hk : k < 512 ^ d) (h : ∃ ts, Tables Owns root ts s)
    (ht : tableAt s.mem root d k = some t) (ve n addr : Nat) :
    Ends (tableLoop ve (n + 1) t body addr) s
      (fun _ s' => (∃ ts, Tables Owns root ts s') ∧ Grows root s.mem s'.mem)
      fun _ s' => ∃ ts, Tables Owns root ts s' := by
  refine Ends.loopFrom_inv
    (fun s' => (∃ ts, Tables Owns root ts s') ∧ Grows root s.mem s'.mem) (fun a s' hinv => ?_)
    (fun _ hinv => hinv.1) ⟨h, .refl _ _⟩
  have ht' := hinv.2 d k t hd hk ht
  refine Ends.bind ((hbody s' _ a hinv.1 ht' (calcIndex_lt n a)).mono (fun a' s'' hkeep => ?_)
    fun _ _ he => he)
  have hkeep' := And.intro hkeep.1 (hinv.2.trans hkeep.2)
  split <;> exact Ends.pure ⟨hkeep', fun _ _ => hkeep'⟩

theorem mapTable_keeps (hb : FreshTables boxNew Owns) (n d : Nat) (hd : d + n = 3)
    (hk : k < 512 ^ d) (h : ∃ ts, Tables Owns root ts s) (ht : tableAt s.mem root d k = some t)
    (vs ve phys : Nat) (attr : PageAttr) (addr : Nat) :
    Ends (mapTable boxNew vs ve phys attr n t addr) s
      (fun _ s' => (∃ ts, Tables Owns root ts s') ∧ Grows root s.mem s'.mem)
      fun _ s' => ∃ ts, Tables Owns root ts s' := by
  induction n generalizing d k addr s t with
  | zero =>
    obtain rfl : d = 3 := hd
    exact tableLoop_keeps (fun s i a hs hts hi => mapPage_keeps hb hs hk hts hi vs phys attr a)
      (Nat.le_refl 3) hk h ht ve 0 addr
  | succ n ih =>
    refine tableLoop_keeps (fun s i a hs hts hi => ?_) (by omega) hk h ht ve (n + 1) addr
    obtain ⟨ts, hts'⟩ := hs
    refine Ends.bind (ensurePopulated_ends hb hts' (by omega) hk hts hi
      (fun ts' s' u hts'' hgrows _ hu => ?_) fun _ => ⟨ts, hts'⟩)
    refine Ends.bind (tableMut_ends (hgrows d k t (by omega) hk hts) hi hu ?_)
    exact (ih (d + 1) (by omega) (key_lt hi hk) ⟨ts', hts''⟩ hu a).mono
      (fun _ _ hkeep => ⟨hkeep.1, hgrows.trans hkeep.2⟩) fun _ _ he => he

theorem createMapping_keeps (hb : FreshTables boxNew Owns) (h : ∃ ts, Tables Owns root ts s)
    (vs ve phys : Nat) (attr : PageAttr) :
    Ends (createMapping boxNew root vs ve phys attr) s (fun _ s' => ∃ ts, Tables Owns root ts s')
      fun _ s' => ∃ ts, Tables Owns root ts s' := by
  have hkeep := mapTable_keeps hb 3 0 rfl (k := 0) (by simp) h rfl vs ve phys attr vs
  exact Ends.bind (hkeep.mono (fun _ _ hs => Ends.pure hs.1) fun _ _ he => he)

end

/-- One call of `create_mapping` with any arguments, whether it returns or fails. -/
def MappingStep (boxNew : BoxNew α) (root : Nat) (s s' : Machine α) : Prop :=
  ∃ virtStart virtEnd phys attr,
    s' = endState (createMapping boxNew root virtStart virtEnd phys attr) s

theorem Tables.fresh (hb : FreshTables boxNew Owns) (h : Owns [] s)
    (hnew : boxNew s = some (root, s0)) :
    Tables Owns root [root] s0 ∧ ∀ v, walk s0.mem root v = none := by
  obtain ⟨hfresh, howns⟩ := hb.fresh [] s root s0 h hnew
  have hnone : ∀ i, i < 512 → nextTable s0.mem root i = none := by
    intro i hi
    refine nextTable_none (Bool.eq_false_iff.2 fun hp => ?_)
    have hodd := isPresent_iff.1 hp
    rw [readValue_zero hfresh.zeroed hi] at hodd
    omega
  refine ⟨⟨howns, RadixTree.single hnone, fun t ht => ?_⟩, fun v => ?_⟩
  · rw [List.mem_singleton.1 ht]
    exact ⟨hfresh.aligned, hfresh.bound⟩
  · rw [walk, hnone _ (calcIndex_lt 3 v)]
    rfl

/-- The tables stay in order from `PML4::new()` on, through any number of calls. -/
theorem tables_of_runs (hb : FreshTables boxNew Owns) (h : Owns [] s)
    (hnew : boxNew s = some (root, s0)) (hrun : Runs (MappingStep boxNew root) s0 s1) :
    ∃ ts, Tables Owns root ts s1 := by
  refine hrun.invariant (fun s => ∃ ts, Tables Owns root ts s) (fun s s' hs hstep => ?_) ?_
  · obtain ⟨vs, ve, phys, attr, rfl⟩ := hstep
    exact (createMapping_keeps hb hs vs ve phys attr).endState
  · exact ⟨[root], (Tables.fresh hb h hnew).1⟩

theorem identity_ends (hb : FreshTables boxNew Owns) (h : ∃ ts, Tables Owns root ts s)
    (vstart vend : Nat) (attr : PageAttr) (hvs : vstart % 4096 = 0) (hlt : vstart < 2 ^ 48)
    (hend : vend ≤ 2 ^ 48) :
    Ends (createMapping boxNew root vstart vend vstart attr) s
      (fun _ s' => (∃ ts, Tables Owns root ts s') ∧ ∀ v < 2 ^ 48, v % 4096 = 0 →
        if vstart ≤ v ∧ v < max vend (vstart + 1) then walk s'.mem root v = some (v ||| attr.bits)
        else translate s'.mem root v = translate s.mem root v)
      (fun e s' => e = .outOfMemory ∧ boxNew s' = none ∧ ∃ ts, Tables Owns root ts s') := by
  have hmaps := createMapping_ends hb ⟨vstart, vend, vstart, attr, hlt, hend, by omega, by omega⟩ h
  refine hmaps.mono (fun _ s' hdone => ?_) fun e s' hf => ?_
  · obtain ⟨addr, hm, hge, hnear⟩ := hdone
    refine ⟨hm.tables, fun v hv hva => ?_⟩
    have hin := hm.inside v hv hva
    have hout := hm.outside v hv hva
    have hoff := hm.offset
    simp only [MapRequest.Visited, MapRequest.leaf, MapRequest.offset, MapRequest.stop, hvs,
      Nat.add_zero] at hin hout hoff hge hnear
    split
    · have hv' : vstart + (v - vstart) = v := by omega
      rw [hin (by omega), hv']
    · exact hout (by omega)
  · cases hf with
    | refused hn hm => exact ⟨rfl, hn, hm.tables⟩
    | unaligned hp _ => exact absurd hvs hp

def maxTables : Nat := 1 + 512 + 512 ^ 2 + 512 ^ 3

theorem Tables.length_le (h : Tables Owns root ts s) : ts.length ≤ maxTables :=
  h.pages.tree.length_le

/-- In every page table reachable from `PML4::new()`, mapping an aligned range succeeds, and it
translates the pages of the range as requested and all other pages as before. -/
theorem create_mapping_exact (boxNew : BoxNew α) (Owns : List Nat → Machine α → Prop)
    (hb : FreshTables boxNew Owns)
    (hserves : ∀ ts s, Owns ts s → ts.length ≤ maxTables → boxNew s ≠ none)
    (h : Owns [] s) (hnew : boxNew s = some (root, s0))
    (hrun : Runs (MappingStep boxNew root) s0 s1) (virtStart virtEnd phys : Nat) (attr : PageAttr)
    (hvs : virtStart % 4096 = 0) (hlt : virtStart < virtEnd) (hend : virtEnd ≤ 2 ^ 48)
    (hphys : phys % 4096 = 0) (hsum : phys + virtEnd < 2 ^ 64) :
    ∃ s2, createMapping boxNew root virtStart virtEnd phys attr s1 = .ok () s2 ∧
      ∀ v < 2 ^ 48, v % 4096 = 0 →
        if virtStart < v + 4096 ∧ v < virtEnd then
          walk s2.mem root v = some ((phys + (v - virtStart)) ||| attr.bits)
        else translate s2.mem root v = translate s1.mem root v := by
  have hmaps := createMapping_ends hb
    ⟨virtStart, virtEnd, phys, attr, by omega, hend, by omega, hsum⟩ (tables_of_runs hb h hnew hrun)
  obtain ⟨_, s2, hok, addr, hm, hge, hnear⟩ := hmaps.returns fun e s' hf => by
    cases hf with
    | refused hn hm =>
      obtain ⟨ts, hts⟩ := hm.tables
      exact hserves ts _ hts.owns hts.length_le hn
    | unaligned hp _ => exact hp hphys
  refine ⟨s2, hok, fun v hv hva => ?_⟩
  have hin := hm.inside v hv hva
  have hout := hm.outside v hv hva
  have hoff := hm.offset
  simp only [MapRequest.Visited, MapRequest.leaf, MapRequest.offset, MapRequest.stop, hvs,
    Nat.add_zero] at hin hout hoff hge hnear
  split
  · exact hin (by omega)
  · exact hout (by omega)

def nextPage : BoxNew Nat := fun s =>
  if s.heap + 4096 ≤ 2 ^ 64 then
    some (s.heap, ⟨zeroFill s.mem s.heap 4096, s.heap + 4096⟩)
  else none

def OwnsBelow (ts : List Nat) (s : Machine Nat) : Prop :=
  s.heap = 4096 * (ts.length + 1) ∧ ∀ t ∈ ts, t % 4096 = 0 ∧ t + 4096 ≤ s.heap

theorem nextPage_fresh : FreshTables nextPage OwnsBelow where
  fresh ts s t s' h hn := by
    obtain ⟨hheap, hts⟩ := h
    unfold nextPage at hn
    split at hn
    · cases hn
      refine ⟨⟨by omega, by omega, fun hmem => ?_, fun b hl hu => zeroFill_zero hl hu,
        fun u hu => zeroFill_same_on ?_⟩, by simp [hheap]; omega, ?_⟩
      · have ht := hts _ hmem
        omega
      · have ht := hts u hu
        omega
      · refine List.forall_mem_cons.2 ⟨⟨by omega, Nat.le_refl _⟩, fun u hu => ?_⟩
        have ht := hts u hu
        exact ⟨ht.1, by dsimp only; omega⟩
    · cases hn
  write _ _ _ _ _ h _ _ := h

theorem create_mapping_exact_nextPage :
    ∃ s2, createMapping nextPage 4096 0x1ff000 0x201000 0x5000 .readWriteKernel
        ⟨zeroFill (fun _ => 0) 4096 4096, 8192⟩ = .ok () s2 ∧
      ∀ v < 2 ^ 48, v % 4096 = 0 →
        if 0x1ff000 < v + 4096 ∧ v < 0x201000 then
          walk s2.mem 4096 v = some ((0x5000 + (v - 0x1ff000)) ||| PageAttr.readWriteKernel.bits)
        else translate s2.mem 4096 v =
          translate (zeroFill (fun _ => 0) 4096 4096) 4096 v :=
  create_mapping_exact nextPage OwnsBelow nextPage_fresh
    (fun ts s h hle => by
      have hheap := h.1
      unfold maxTables at hle
      rw [nextPage, if_pos (by omega)]
      exact Option.some_ne_none _)
    (s := ⟨fun _ => 0, 4096⟩) ⟨rfl, by simp⟩ rfl .refl 0x1ff000 0x201000 0x5000 .readWriteKernel
    (by decide) (by decide) (by decide) (by decide) (by decide)

theorem walk_page (m : Mem) (root v : Nat) :
    walk m root v = walk m root (v % 2 ^ 48 / 4096 * 4096) := by
  have hindex : ∀ n, n ≤ 3 →
      calcIndex (n + 1) v = calcIndex (n + 1) (v % 2 ^ 48 / 4096 * 4096) := by
    intro n hn
    rw [calcIndex_eq, calcIndex_eq]
    obtain rfl | rfl | rfl | rfl : n = 0 ∨ n = 1 ∨ n = 2 ∨ n = 3 := by omega
    all_goals omega
  rw [walk, walk, hindex 3 (by omega), hindex 2 (by omega), hindex 1 (by omega),
    hindex 0 (by omega)]

theorem Mapped.translate_eq (h : Mapped Owns root r m r.virtStart s) (v : Nat) :
    translate s.mem root v = translate m root v := by
  have hout := h.outside (v % 2 ^ 48 / 4096 * 4096) (by omega) (Nat.mul_mod_left _ _)
    fun hvisited => by
      unfold MapRequest.Visited at hvisited
      omega
  rw [translate, walk_page, translate, walk_page m]
  exact hout

/-- A mapping fails exactly when the physical address is not aligned, and then it has mapped and
unmapped nothing. The allocation of a table may abort the call. -/
theorem failed_mapping_keeps (boxNew : BoxNew α) (Owns : List Nat → Machine α → Prop)
    (hb : FreshTables boxNew Owns) (h : Owns [] s) (hnew : boxNew s = some (root, s0))
    (hrun : Runs (MappingStep boxNew root) s0 s1)
    (virtStart virtEnd phys : Nat) (attr : PageAttr)
    (hlt : virtStart < virtEnd) (hend : virtEnd ≤ 2 ^ 48) (hsum : phys + virtEnd < 2 ^ 64) :
    ((∃ s2, createMapping boxNew root virtStart virtEnd phys attr s1 = .error .outOfMemory s2 ∧
        boxNew s2 = none) ∨
      ((∃ msg s2, createMapping boxNew root virtStart virtEnd phys attr s1 = .error (.err msg) s2) ↔
        phys % 4096 ≠ 0)) ∧
    ∀ msg s2, createMapping boxNew root virtStart virtEnd phys attr s1 = .error (.err msg) s2 →
      ∀ v, translate s2.mem root v = translate s1.mem root v := by
  have hmaps := createMapping_ends hb
    ⟨virtStart, virtEnd, phys, attr, by omega, hend, by omega, hsum⟩ (tables_of_runs hb h hnew hrun)
  cases hx : createMapping boxNew root virtStart virtEnd phys attr s1 with
  | ok _ s2 =>
    obtain ⟨addr, hm, hge, _⟩ := hmaps.of_ok hx
    have haligned : phys % 4096 = 0 := by
      rcases hm.aligned with he | hal
      · unfold MapRequest.stop at hge
        omega
      · exact hal
    refine ⟨.inr ⟨?_, fun hp => absurd haligned hp⟩, ?_⟩
    · rintro ⟨_, _, he⟩
      cases he
    · intro _ _ he
      cases he
  | error e s2 =>
    cases hmaps.of_error hx with
    | refused hn _ =>
      refine ⟨.inl ⟨s2, rfl, hn⟩, ?_⟩
      intro _ _ he
      cases he
    | unaligned hp hm =>
      refine ⟨.inr (iff_of_true ⟨_, s2, rfl⟩ hp), ?_⟩
      intro _ _ he
      cases he
      exact hm.translate_eq

theorem failed_mapping_keeps_nextPage :
    ((∃ s2, createMapping nextPage 4096 0x1ff000 0x201000 0x5800 .readWriteKernel
        ⟨zeroFill (fun _ => 0) 4096 4096, 8192⟩ = .error .outOfMemory s2 ∧ nextPage s2 = none) ∨
      ((∃ msg s2, createMapping nextPage 4096 0x1ff000 0x201000 0x5800 .readWriteKernel
          ⟨zeroFill (fun _ => 0) 4096 4096, 8192⟩ = .error (.err msg) s2) ↔ 0x5800 % 4096 ≠ 0)) ∧
    ∀ msg s2, createMapping nextPage 4096 0x1ff000 0x201000 0x5800 .readWriteKernel
        ⟨zeroFill (fun _ => 0) 4096 4096, 8192⟩ = .error (.err msg) s2 →
      ∀ v, translate s2.mem 4096 v = translate (zeroFill (fun _ => 0) 4096 4096) 4096 v :=
  failed_mapping_keeps nextPage OwnsBelow nextPage_fresh (s := ⟨fun _ => 0, 4096⟩)
    ⟨rfl, List.forall_mem_nil _⟩ rfl .refl 0x1ff000 0x201000 0x5800 .readWriteKernel
    (by decide) (by decide) (by decide)

end Wasabi
