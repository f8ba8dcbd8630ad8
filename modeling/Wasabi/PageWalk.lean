import Wasabi.PageTable
import Wasabi.RadixTree

namespace Wasabi
set_option autoImplicit true

open Entry Table

theorem calcIndex_eq (n addr : Nat) : calcIndex (n + 1) addr = addr / 2 ^ (n * 9 + 12) % 512 := by
  rw [calcIndex, indexShift, Nat.add_sub_cancel, Nat.shiftRight_eq_div_pow]
  exact Nat.and_two_pow_sub_one_eq_mod _ 9

theorem calcIndex_lt (n addr : Nat) : calcIndex (n + 1) addr < 512 := by
  rw [calcIndex_eq]
  exact Nat.mod_lt _ (by omega)

theorem land_attrMask (x : Nat) : x &&& attrMask = x % 4096 :=
  Nat.and_two_pow_sub_one_eq_mod x 12

theorem land_not_attrMask (hx : x < 2 ^ 64) : x &&& complement attrMask = x / 4096 * 4096 :=
  @land_complement_mask x 4096 hx ⟨12, by omega, rfl⟩

theorem land_present (x : Nat) : x &&& 1 <<< 0 = x % 2 := Nat.and_one_is_mod x

theorem PageAttr.bits_lt (attr : PageAttr) : attr.bits < 4096 := by
  cases attr <;> decide

theorem isPresent_iff : isPresent m e = true ↔ readValue m e % 2 = 1 := by
  rw [isPresent, land_present, bne_iff_ne]
  omega

theorem nextTable_none (h : isPresent m (entry t i) = false) : nextTable m t i = none := by
  rw [nextTable, h]
  rfl

theorem nextTable_some (h : isPresent m (entry t i) = true) :
    nextTable m t i = some (readValue m (entry t i) &&& complement attrMask) := by
  rw [nextTable, if_pos h]

theorem readValue_write_ne (ht : t % 4096 = 0) (hu : u % 4096 = 0) (hi : i < 512) (hj : j < 512)
    (hne : u ≠ t ∨ j ≠ i) :
    readValue (writeLe m (entry t i) 8 v) (entry u j) = readValue m (entry u j) := by
  apply readLe_writeLe_ne
  unfold entry
  omega

theorem readValue_write (hv : v < 2 ^ 64) : readValue (writeLe m e 8 v) e = v :=
  readLe_writeLe_of_lt (lt_of_lt_of_eq hv (by norm_num))

theorem readValue_zero (h : ∀ b, t ≤ b → b < t + 4096 → m b = 0) (hj : j < 512) :
    readValue m (entry t j) = 0 := by
  unfold readValue entry
  exact readLe_of_zero fun b hl hu => h b (by omega) (by omega)

theorem readValue_same (h : SameOn m m' t 4096) (hj : j < 512) :
    readValue m' (entry t j) = readValue m (entry t j) := by
  unfold readValue entry
  exact readLe_congr (h.mono (by omega) (by omega))

theorem nextTable_of_readValue (h : readValue m' (entry t i) = readValue m (entry t i)) :
    nextTable m' t i = nextTable m t i := by
  rw [nextTable, nextTable, isPresent, isPresent, h]

/-- The tables `ts` form a tree below the PML4 at `root`, each on a page of its own. -/
structure PageTree (m : Mem) (root : Nat) (ts : List Nat) : Prop where
  tree : RadixTree (nextTable m) root 512 3 ts
  aligned : ∀ t ∈ ts, t % 4096 = 0 ∧ t + 4096 ≤ 2 ^ 64

abbrev tableAt (m : Mem) (root d k : Nat) : Option Nat := nodeAt (nextTable m) root 512 d k

theorem walk_eq (m : Mem) (root v : Nat) :
    walk m root v =
      (tableAt m root 3 (v / 2 ^ 21)).map fun pt => readValue m (entry pt (v / 4096 % 512)) := by
  have h2 : v / 2 ^ 21 / 512 = v / 2 ^ 30 := by omega
  have h3 : v / 2 ^ 30 / 512 = v / 2 ^ 39 := by omega
  have e1 : calcIndex 1 v = v / 4096 % 512 := calcIndex_eq 0 v
  have e2 : calcIndex 2 v = v / 2 ^ 21 % 512 := calcIndex_eq 1 v
  have e3 : calcIndex 3 v = v / 2 ^ 30 % 512 := calcIndex_eq 2 v
  have e4 : calcIndex 4 v = v / 2 ^ 39 % 512 := calcIndex_eq 3 v
  simp only [walk, tableAt, nodeAt, h2, h3, e1, e2, e3, e4]
  generalize v / 2 ^ 39 % 512 = i4, v / 2 ^ 30 % 512 = i3, v / 2 ^ 21 % 512 = i2
  cases h4 : nextTable m root i4 with
  | none => simp [h4]
  | some pdpt =>
    cases h3 : nextTable m pdpt i3 with
    | none => simp [h3, h4]
    | some pd => cases h2 : nextTable m pd i2 <;> simp [h2, h3, h4]

/-- What `Box::new` promises about the table `t` that it returns while `ts` are in use. -/
structure FreshTable (ts : List Nat) (m m' : Mem) (t : Nat) : Prop where
  aligned : t % 4096 = 0
  bound : t + 4096 ≤ 2 ^ 64
  fresh : t ∉ ts
  zeroed : ∀ b, t ≤ b → b < t + 4096 → m' b = 0
  keeps : ∀ u ∈ ts, SameOn m m' u 4096

namespace PageTree

theorem attach (h : PageTree m root ts) (ht : t ∈ ts) (hi : i < 512)
    (hn : nextTable m t i = none) (hf : FreshTable ts m m1 u) :
    Attach (nextTable m)
      (nextTable (writeLe m1 (entry t i) 8 (u ||| PageAttr.readWriteKernel.bits))) 512 ts t i u :=
  by
  have hbits : u ||| PageAttr.readWriteKernel.bits = u + 3 := lor_eq_add hf.aligned (by decide)
  have hu := hf.aligned
  have hub := hf.bound
  have hta := (h.aligned t ht).1
  have htu : t ≠ u := fun he => hf.fresh (he ▸ ht)
  refine ⟨hi, hn, hf.fresh, ?_, fun j hj => ?_, fun v hv j hj hne => ?_⟩
  · have hval : readValue (writeLe m1 (entry t i) 8 (u ||| PageAttr.readWriteKernel.bits))
        (entry t i) = u + 3 := by rw [readValue_write (by omega), hbits]
    have hp : isPresent (writeLe m1 (entry t i) 8 (u ||| PageAttr.readWriteKernel.bits))
        (entry t i) = true := isPresent_iff.2 (by omega)
    rw [nextTable_some hp, hval, land_not_attrMask (by omega)]
    exact congrArg some (by omega)
  · have hval : readValue (writeLe m1 (entry t i) 8 (u ||| PageAttr.readWriteKernel.bits))
        (entry u j) = 0 := by
      rw [readValue_write_ne hta hu hi hj (.inl htu.symm), readValue_zero hf.zeroed hj]
    refine nextTable_none (Bool.eq_false_iff.2 fun hp => ?_)
    have hodd := isPresent_iff.1 hp
    omega
  · apply nextTable_of_readValue
    rw [readValue_write_ne hta (h.aligned v hv).1 hi hj hne, readValue_same (hf.keeps v hv) hj]

end PageTree

/-- Every table stays where it is; new tables may appear in free places. -/
def Grows (root : Nat) (m m' : Mem) : Prop :=
  ∀ d k t, d ≤ 3 → k < 512 ^ d → tableAt m root d k = some t → tableAt m' root d k = some t

theorem Grows.refl (root : Nat) (m : Mem) : Grows root m m := fun _ _ _ _ _ h => h

theorem Grows.trans (h : Grows root m m') (h' : Grows root m' m'') : Grows root m m'' :=
  fun d k t hd hk ht => h' d k t hd hk (h d k t hd hk ht)

theorem walk_eq_some : walk m root v = some e ↔
    ∃ pt, tableAt m root 3 (v / 2 ^ 21) = some pt ∧
      readValue m (entry pt (v / 4096 % 512)) = e := by
  rw [walk_eq, Option.map_eq_some_iff]

theorem walk_eq_none : walk m root v = none ↔ tableAt m root 3 (v / 2 ^ 21) = none := by
  rw [walk_eq, Option.map_eq_none_iff]

/-- Leaf values that were there stay, and no address becomes mapped. -/
structure SameWalks (root : Nat) (m m' : Mem) : Prop where
  keeps : ∀ v < 2 ^ 48, ∀ e, walk m root v = some e → walk m' root v = some e
  adds : ∀ v < 2 ^ 48, walk m root v = none → translate m' root v = none

theorem SameWalks.translate_eq (h : SameWalks root m m') (hv : v < 2 ^ 48) :
    translate m' root v = translate m root v := by
  cases hw : walk m root v with
  | none =>
    rw [h.adds v hv hw, translate, hw]
    rfl
  | some e => rw [translate, translate, hw, h.keeps v hv e hw]

namespace PageTree

/-- Linking in a new table maps nothing. -/
theorem populate (h : PageTree m root ts) (hd : d < 3) (hk : k < 512 ^ d)
    (ht : tableAt m root d k = some t) (hi : i < 512) (hn : nextTable m t i = none)
    (hf : FreshTable ts m m1 u)
    (hm : m2 = writeLe m1 (entry t i) 8 (u ||| PageAttr.readWriteKernel.bits)) :
    PageTree m2 root (u :: ts) ∧ tableAt m2 root (d + 1) (k * 512 + i) = some u ∧
      Grows root m m2 ∧ SameWalks root m m2 := by
  have hmem := h.tree.reached d k t (by omega) hk ht
  have ha := h.attach hmem hi hn hf
  rw [← hm] at ha
  have hat : ∀ e l, e ≤ 3 → l < 512 ^ e → tableAt m2 root e l =
      if e = d + 1 ∧ l = k * 512 + i then some u else tableAt m root e l :=
    fun e l he hl => ha.nodeAt_eq h.tree hd hk ht he hl
  have hfree : tableAt m root (d + 1) (k * 512 + i) = none := (nodeAt_key hi ht).trans hn
  have hgrows : Grows root m m2 := by
    intro e l w he hl hw
    rw [hat e l he hl, if_neg, hw]
    rintro ⟨rfl, rfl⟩
    exact nomatch hfree.symm.trans hw
  refine ⟨⟨h.tree.attach ha hd hk ht, ?_⟩, ?_, hgrows, ⟨fun v hv e he => ?_, fun v hv hnone => ?_⟩⟩
  · exact List.forall_mem_cons.2 ⟨⟨hf.aligned, hf.bound⟩, h.aligned⟩
  · rw [hat _ _ (by omega) (key_lt hi hk), if_pos ⟨rfl, rfl⟩]
  · have hl : v / 2 ^ 21 < 512 ^ 3 := by omega
    have hj : v / 4096 % 512 < 512 := Nat.mod_lt _ (by omega)
    obtain ⟨pt, hpt, hval⟩ := walk_eq_some.1 he
    have hptmem := h.tree.reached 3 _ pt (by omega) hl hpt
    have hne : pt ≠ t := by
      rintro rfl
      have hu := h.tree.unique _ _ _ _ _ (by omega) hl (by omega) hk hpt ht
      omega
    refine walk_eq_some.2 ⟨pt, hgrows _ _ _ (Nat.le_refl 3) hl hpt, ?_⟩
    rw [hm, readValue_write_ne (h.aligned t hmem).1 (h.aligned pt hptmem).1 hi hj (.inl hne),
      readValue_same (hf.keeps pt hptmem) hj, hval]
  · have hl : v / 2 ^ 21 < 512 ^ 3 := by omega
    have hj : v / 4096 % 512 < 512 := Nat.mod_lt _ (by omega)
    rw [translate, walk_eq, hat 3 _ (by omega) hl]
    split
    · have hval : readValue m2 (entry u (v / 4096 % 512)) = 0 := by
        have htu : u ≠ t := fun he => hf.fresh (he ▸ hmem)
        rw [hm, readValue_write_ne (h.aligned t hmem).1 hf.aligned hi hj (.inl htu),
          readValue_zero hf.zeroed hj]
      rw [Option.map_some, hval]
      rfl
    · rw [walk_eq_none.1 hnone]
      rfl

theorem frame (h : PageTree m root ts) (hm : ∀ t ∈ ts, SameOn m m' t 4096) :
    PageTree m' root ts ∧ ∀ v < 2 ^ 48, walk m' root v = walk m root v := by
  have hlinks : ∀ d l t, d < 3 → l < 512 ^ d → tableAt m root d l = some t →
      ∀ j, j < 512 → nextTable m' t j = nextTable m t j := fun d l t hd hl ht j hj =>
    nextTable_of_readValue (readValue_same (hm t (h.tree.reached d l t (by omega) hl ht)) hj)
  refine ⟨⟨h.tree.congr hlinks, h.aligned⟩, fun v hv => ?_⟩
  have hl : v / 2 ^ 21 < 512 ^ 3 := by omega
  have hat : tableAt m' root 3 (v / 2 ^ 21) = tableAt m root 3 (v / 2 ^ 21) :=
    nodeAt_congr hlinks (Nat.le_refl 3) hl
  rw [walk_eq, walk_eq, hat]
  cases hpt : tableAt m root 3 (v / 2 ^ 21) with
  | none => rw [Option.map_none, Option.map_none]
  | some pt =>
    rw [Option.map_some, Option.map_some, readValue_same (hm pt (h.tree.reached 3 _ pt (by omega)
      hl hpt)) (Nat.mod_lt _ (by omega))]

/-- Storing into an entry of a lowest table maps exactly one page and moves no table. -/
theorem setPage (h : PageTree m root ts) (hk : k < 512 ^ 3) (ht : tableAt m root 3 k = some t)
    (hi : i < 512) (hx : x < 2 ^ 64) (hm : m2 = writeLe m (entry t i) 8 x) :
    PageTree m2 root ts ∧ Grows root m m2 ∧
      ∀ v < 2 ^ 48, walk m2 root v = if v / 4096 = k * 512 + i then some x else walk m root v := by
  have hmem := h.tree.reached 3 k t (by omega) hk ht
  have hsame : ∀ pt ∈ ts, ∀ j < 512, (pt ≠ t ∨ j ≠ i) →
      readValue m2 (entry pt j) = readValue m (entry pt j) := by
    intro pt hpt j hj hne
    rw [hm, readValue_write_ne (h.aligned t hmem).1 (h.aligned pt hpt).1 hi hj hne]
  have hlinks : ∀ d l pt, d < 3 → l < 512 ^ d → tableAt m root d l = some pt →
      ∀ j, j < 512 → nextTable m2 pt j = nextTable m pt j := by
    intro d l pt hd hl hpt j hj
    refine nextTable_of_readValue
      (hsame pt (h.tree.reached d l pt (by omega) hl hpt) j hj (.inl ?_))
    rintro rfl
    have hu := h.tree.unique _ _ _ _ _ (by omega) hl (by omega) hk hpt ht
    omega
  have hat : ∀ d l, d ≤ 3 → l < 512 ^ d → tableAt m2 root d l = tableAt m root d l :=
    fun d l hd hl => nodeAt_congr hlinks hd hl
  refine ⟨⟨h.tree.congr hlinks, h.aligned⟩, fun d l w hd hl hw => (hat d l hd hl).trans hw,
    fun v hv => ?_⟩
  have hl : v / 2 ^ 21 < 512 ^ 3 := by omega
  have hj : v / 4096 % 512 < 512 := Nat.mod_lt _ (by omega)
  rw [walk_eq, walk_eq, hat 3 _ (by omega) hl]
  cases hpt : tableAt m root 3 (v / 2 ^ 21) with
  | none =>
    rw [Option.map_none, Option.map_none, if_neg]
    intro hpage
    have hkey : v / 2 ^ 21 = k := by omega
    rw [hkey, ht] at hpt
    cases hpt
  | some pt =>
    rw [Option.map_some, Option.map_some]
    by_cases hpage : v / 4096 = k * 512 + i
    · have hkey : v / 2 ^ 21 = k := by omega
      have hidx : v / 4096 % 512 = i := by omega
      rw [hkey, ht] at hpt
      cases hpt
      rw [if_pos hpage, hm, hidx, readValue_write hx]
    · rw [if_neg hpage, hsame pt (h.tree.reached 3 _ pt (by omega) hl hpt) _ hj]
      by_contra hc
      push Not at hc
      obtain ⟨rfl, hji⟩ := hc
      have hu := h.tree.unique _ _ _ _ _ (by omega) hl (by omega) hk hpt ht
      omega

end PageTree

end Wasabi
