import Mathlib.Data.List.Perm.Subperm
import Mathlib.Data.List.Nodup
import Mathlib.Tactic.Tauto
import Mathlib.Tactic.Ring

namespace Wasabi
set_option autoImplicit true

section
variable {T : Type} (next : T → Nat → Option T) (root : T) (width : Nat)

/-- The node that a key of `d` digits leads to from the root, the leading digit first. -/
def nodeAt : Nat → Nat → Option T
  | 0, _ => some root
  | d + 1, k => (nodeAt d (k / width)).bind fun t => next t (k % width)

/-- The list `ts` holds the nodes of a tree with `depth` levels of links: no node is shared. -/
structure RadixTree (depth : Nat) (ts : List T) : Prop where
  nodup : ts.Nodup
  reached : ∀ d k t, d ≤ depth → k < width ^ d → nodeAt next root width d k = some t → t ∈ ts
  unique : ∀ d k d' k' t, d ≤ depth → k < width ^ d → d' ≤ depth → k' < width ^ d' →
    nodeAt next root width d k = some t → nodeAt next root width d' k' = some t → d = d' ∧ k = k'
  covered : ∀ t ∈ ts, ∃ d k, d ≤ depth ∧ k < width ^ d ∧ nodeAt next root width d k = some t

end

section
variable {T : Type} {next next' : T → Nat → Option T} {root t u : T} {width depth d k : Nat}
  {ts : List T}

theorem key_div_lt (h : k < width ^ (d + 1)) : k / width < width ^ d :=
  Nat.div_lt_of_lt_mul (by rwa [pow_succ'] at h)

theorem key_pos (h : k < width ^ (d + 1)) : 0 < width := by
  rcases Nat.eq_zero_or_pos width with rfl | hpos
  · simp at h
  · exact hpos

theorem nodeAt_congr
    (hn : ∀ d k t, d < depth → k < width ^ d → nodeAt next root width d k = some t →
      ∀ i, i < width → next' t i = next t i) (hd : d ≤ depth) (hk : k < width ^ d) :
    nodeAt next' root width d k = nodeAt next root width d k := by
  induction d generalizing k with
  | zero => rfl
  | succ d ih =>
    rw [nodeAt, nodeAt, ih (by omega) (key_div_lt hk)]
    cases ht : nodeAt next root width d (k / width) with
    | none => rfl
    | some t => exact hn d _ t (by omega) (key_div_lt hk) ht _ (Nat.mod_lt _ (key_pos hk))

theorem RadixTree.congr (h : RadixTree next root width depth ts)
    (hn : ∀ d k t, d < depth → k < width ^ d → nodeAt next root width d k = some t →
      ∀ i, i < width → next' t i = next t i) : RadixTree next' root width depth ts where
  nodup := h.nodup
  reached d k t hd hk ht := h.reached d k t hd hk (nodeAt_congr hn hd hk ▸ ht)
  unique d k d' k' t hd hk hd' hk' ht ht' :=
    h.unique d k d' k' t hd hk hd' hk' (nodeAt_congr hn hd hk ▸ ht) (nodeAt_congr hn hd' hk' ▸ ht')
  covered t ht := by
    obtain ⟨d, k, hd, hk, hn'⟩ := h.covered t ht
    exact ⟨d, k, hd, hk, (nodeAt_congr hn hd hk).trans hn'⟩

theorem RadixTree.single (h : ∀ i, i < width → next root i = none) :
    RadixTree next root width depth [root] := by
  have hnone : ∀ d k, k < width ^ (d + 1) → nodeAt next root width (d + 1) k = none := by
    intro d
    induction d with
    | zero => exact fun k hk => h _ (Nat.mod_lt _ (key_pos hk))
    | succ d ih =>
      intro k hk
      rw [nodeAt, ih _ (key_div_lt hk)]
      rfl
  have hzero : ∀ d k t, k < width ^ d → nodeAt next root width d k = some t →
      d = 0 ∧ k = 0 ∧ t = root := by
    intro d k t hk ht
    cases d with
    | zero => exact ⟨rfl, by simpa using hk, (Option.some.inj ht).symm⟩
    | succ d => exact nomatch (hnone d k hk).symm.trans ht
  refine ⟨List.nodup_singleton root, fun d k t _ hk ht => ?_,
    fun d k d' k' t _ hk _ hk' ht ht' => ?_,
    fun t ht => ⟨0, 0, Nat.zero_le _, by simp, by rw [List.mem_singleton.1 ht]; rfl⟩⟩
  · exact List.mem_singleton.2 (hzero d k t hk ht).2.2
  · obtain ⟨rfl, rfl, _⟩ := hzero d k t hk ht
    obtain ⟨rfl, rfl, _⟩ := hzero d' k' t hk' ht'
    exact ⟨rfl, rfl⟩

/-- A new leaf `u` is linked in at the free place `i` of the node `t`; all other links stay. -/
structure Attach (next next' : T → Nat → Option T) (width : Nat) (ts : List T) (t : T) (i : Nat)
    (u : T) : Prop where
  bound : i < width
  free : next t i = none
  fresh : u ∉ ts
  linked : next' t i = some u
  leaf : ∀ j, j < width → next' u j = none
  same : ∀ v ∈ ts, ∀ j, j < width → (v ≠ t ∨ j ≠ i) → next' v j = next v j

theorem key_div (hi : i < width) : (k * width + i) / width = k := by
  rw [Nat.add_comm, Nat.add_mul_div_right _ _ (by omega), Nat.div_eq_of_lt hi, Nat.zero_add]

theorem key_mod (hi : i < width) : (k * width + i) % width = i := by
  rw [Nat.add_comm, Nat.add_mul_mod_self_right, Nat.mod_eq_of_lt hi]

theorem key_lt (hi : i < width) (hk : k < width ^ d) : k * width + i < width ^ (d + 1) := by
  have hle := Nat.mul_le_mul_right width (Nat.succ_le_of_lt hk)
  rw [Nat.succ_mul, ← pow_succ] at hle
  omega

theorem nodeAt_key (hi : i < width) (ht : nodeAt next root width d k = some t) :
    nodeAt next root width (d + 1) (k * width + i) = next t i := by
  rw [nodeAt, key_div hi, ht, key_mod hi]
  rfl

/-- Linking in a leaf adds the leaf at its place and moves no other node. -/
theorem Attach.nodeAt_eq (h : RadixTree next root width depth ts)
    (ha : Attach next next' width ts t i u) (hd : d < depth) (hk : k < width ^ d)
    (ht : nodeAt next root width d k = some t) {e l : Nat} (he : e ≤ depth) (hl : l < width ^ e) :
    nodeAt next' root width e l =
      if e = d + 1 ∧ l = k * width + i then some u else nodeAt next root width e l := by
  induction e generalizing l with
  | zero =>
    rw [if_neg (by omega)]
    rfl
  | succ e ih =>
    have hlw := key_div_lt hl
    have hw := Nat.mod_lt l (key_pos hl)
    have hdm := Nat.div_add_mod' l width
    rw [nodeAt, ih (by omega) hlw]
    by_cases hu : e = d + 1 ∧ l / width = k * width + i
    · obtain ⟨rfl, hlu⟩ := hu
      have hfree : nodeAt next root width (d + 2) l = none := by
        rw [nodeAt, hlu, nodeAt_key ha.bound ht, ha.free]
        rfl
      rw [if_pos ⟨rfl, hlu⟩, if_neg (by omega), hfree]
      exact ha.leaf _ hw
    · rw [if_neg hu, nodeAt]
      cases hv : nodeAt next root width e (l / width) with
      | none =>
        rw [if_neg]
        · rfl
        · rintro ⟨hed, rfl⟩
          obtain rfl : e = d := by omega
          rw [key_div ha.bound, ht] at hv
          cases hv
      | some v =>
        by_cases hvt : v = t ∧ l % width = i
        · obtain ⟨rfl, hli⟩ := hvt
          obtain ⟨rfl, hlk⟩ := h.unique _ _ _ _ _ (by omega) hlw (by omega) hk hv ht
          rw [if_pos ⟨rfl, by rw [← hdm, hlk, hli]⟩, hli]
          exact ha.linked
        · rw [if_neg]
          · exact ha.same v (h.reached _ _ _ (by omega) hlw hv) _ hw (by tauto)
          · rintro ⟨hed, rfl⟩
            obtain rfl : e = d := by omega
            rw [key_div ha.bound, ht] at hv
            exact hvt ⟨(Option.some.inj hv).symm, key_mod ha.bound⟩

theorem RadixTree.attach (h : RadixTree next root width depth ts)
    (ha : Attach next next' width ts t i u) (hd : d < depth) (hk : k < width ^ d)
    (ht : nodeAt next root width d k = some t) : RadixTree next' root width depth (u :: ts) := by
  have hlu := key_lt ha.bound hk
  have heq : ∀ e l, e ≤ depth → l < width ^ e → nodeAt next' root width e l =
      if e = d + 1 ∧ l = k * width + i then some u else nodeAt next root width e l :=
    fun e l he hl => ha.nodeAt_eq h hd hk ht he hl
  have hold : ∀ e l v, e ≤ depth → l < width ^ e → nodeAt next' root width e l = some v →
      (e = d + 1 ∧ l = k * width + i ∧ v = u) ∨
        (nodeAt next root width e l = some v ∧ v ∈ ts ∧ v ≠ u) := by
    intro e l v he hl hv
    rw [heq e l he hl] at hv
    split at hv
    · rename_i hc
      exact .inl ⟨hc.1, hc.2, (Option.some.inj hv).symm⟩
    · have hmem := h.reached e l v he hl hv
      exact .inr ⟨hv, hmem, fun hvu => ha.fresh (hvu ▸ hmem)⟩
  refine ⟨List.nodup_cons.2 ⟨ha.fresh, h.nodup⟩, fun e l v he hl hv => ?_,
    fun e l e' l' v he hl he' hl' hv hv' => ?_, fun v hv => ?_⟩
  · rcases hold e l v he hl hv with ⟨_, _, rfl⟩ | ⟨_, hmem, _⟩
    · exact List.mem_cons_self
    · exact List.mem_cons_of_mem _ hmem
  · rcases hold e l v he hl hv with ⟨rfl, rfl, hvu⟩ | ⟨hv, _, hvu⟩
    · rcases hold e' l' v he' hl' hv' with ⟨rfl, rfl, _⟩ | ⟨_, _, hne⟩
      · exact ⟨rfl, rfl⟩
      · exact absurd hvu hne
    · rcases hold e' l' v he' hl' hv' with ⟨_, _, he⟩ | ⟨hv', _, _⟩
      · exact absurd he hvu
      · exact h.unique e l e' l' v he hl he' hl' hv hv'
  · rcases List.mem_cons.1 hv with rfl | hv
    · refine ⟨d + 1, k * width + i, hd, hlu, ?_⟩
      rw [heq _ _ hd hlu, if_pos ⟨rfl, rfl⟩]
    · obtain ⟨e, l, he, hl, hn⟩ := h.covered v hv
      refine ⟨e, l, he, hl, ?_⟩
      rw [heq e l he hl, if_neg, hn]
      rintro ⟨rfl, rfl⟩
      rw [nodeAt_key ha.bound ht, ha.free] at hn
      cases hn

/-- The number of places in a tree bounds the number of its nodes. -/
theorem RadixTree.length_le (h : RadixTree next root width depth ts) :
    ts.length ≤ ((List.range (depth + 1)).map (width ^ ·)).sum := by
  have hsub : ts.map some ⊆ (List.range (depth + 1)).flatMap fun d =>
      (List.range (width ^ d)).map fun k => nodeAt next root width d k := by
    intro o ho
    obtain ⟨t, ht, rfl⟩ := List.mem_map.1 ho
    obtain ⟨d, k, hd, hk, hn⟩ := h.covered t ht
    exact List.mem_flatMap.2 ⟨d, List.mem_range.2 (by omega), List.mem_map.2
      ⟨k, List.mem_range.2 hk, hn⟩⟩
  have hnodup : (ts.map some).Nodup := h.nodup.map (Option.some_injective T)
  have hle := (List.subperm_of_subset hnodup hsub).length_le
  simpa [List.length_flatMap] using hle

end

end Wasabi
