import Wasabi.Header

namespace Wasabi
set_option autoImplicit true

/-- `r` is the least power of two that is not below `v`. -/
structure IsCeilPow2 (v r : Nat) : Prop where
  pow : ∃ k, r = 2 ^ k
  le : v ≤ r
  least : ∀ k, v ≤ 2 ^ k → r ≤ 2 ^ k

theorem isCeilPow2_clog (v : Nat) : IsCeilPow2 v (2 ^ Nat.clog 2 v) := by
  refine ⟨⟨_, rfl⟩, Nat.le_pow_clog (by omega) v, fun k hk => ?_⟩
  exact Nat.pow_le_pow_right (by omega) (Nat.clog_le_of_le_pow hk)

theorem IsCeilPow2.mono (h : IsCeilPow2 v r) (h' : IsCeilPow2 w s) (hle : v ≤ w) : r ≤ s := by
  obtain ⟨k, rfl⟩ := h'.pow
  exact h.least k (hle.trans h'.le)

theorem IsCeilPow2.self (h : IsCeilPow2 v r) : IsCeilPow2 r r :=
  ⟨h.pow, Nat.le_refl r, fun _ hk => hk⟩

theorem IsCeilPow2.eq (h : IsCeilPow2 v r) (h' : IsCeilPow2 v s) : r = s :=
  Nat.le_antisymm (h.mono h' (Nat.le_refl v)) (h'.mono h (Nat.le_refl v))

theorem roundUpToNearestPow2_large (h : 2 ^ 63 < v) :
    roundUpToNearestPow2 v = .error "Out of range" := by
  have hv : v ≠ 0 := by omega
  have hw : v - 1 ≠ 0 := by omega
  have hlog : 63 ≤ (v - 1).log2 := (Nat.le_log2 hw).2 (by omega)
  have hzeros : leadingZeros (v - 1) = 0 := by
    rw [leadingZeros, if_neg hw]
    omega
  simp only [roundUpToNearestPow2, if_neg hv, hzeros]
  decide

theorem roundUpToNearestPow2_ok (h : roundUpToNearestPow2 v = .ok r) :
    (0 < v ∧ v ≤ 2 ^ 63) ∧ IsCeilPow2 v r := by
  have hpos : 0 < v := by
    by_contra hzero
    obtain rfl : v = 0 := by omega
    cases roundUpToNearestPow2_zero.symm.trans h
  have hle : v ≤ 2 ^ 63 := by
    by_contra hlarge
    cases (roundUpToNearestPow2_large (Nat.not_le.1 hlarge)).symm.trans h
  cases (roundUpToNearestPow2_eq hpos hle).symm.trans h
  exact ⟨⟨hpos, hle⟩, isCeilPow2_clog v⟩

/-- Rounding fails for 0 and for what no power of two in 64 bits reaches; otherwise it is the least
upper bound, and so it keeps the order and the powers of two. -/
structure RoundsUp (v : Nat) : Prop where
  error_iff : roundUpToNearestPow2 v = .error "Out of range" ↔ v = 0 ∨ 2 ^ 63 < v
  ok : 0 < v → v ≤ 2 ^ 63 → ∃ r, roundUpToNearestPow2 v = .ok r ∧ IsCeilPow2 v r
  monotone : ∀ w r s, v ≤ w → roundUpToNearestPow2 v = .ok r → roundUpToNearestPow2 w = .ok s →
    r ≤ s
  idempotent : ∀ r, roundUpToNearestPow2 v = .ok r → roundUpToNearestPow2 r = .ok r

theorem round_up_least_pow2 (v : Nat) : RoundsUp v := by
  refine ⟨⟨fun h => ?_, fun h => ?_⟩, fun hpos hle => ?_, fun w r s hvw hr hs => ?_, fun r hr => ?_⟩
  · by_contra hrange
    cases (roundUpToNearestPow2_eq (by omega) (by omega)).symm.trans h
  · rcases h with rfl | hlarge
    · exact roundUpToNearestPow2_zero
    · exact roundUpToNearestPow2_large hlarge
  · exact ⟨_, roundUpToNearestPow2_eq hpos hle, isCeilPow2_clog v⟩
  · exact (roundUpToNearestPow2_ok hr).2.mono (roundUpToNearestPow2_ok hs).2 hvw
  · obtain ⟨⟨hpos, hle⟩, hceil⟩ := roundUpToNearestPow2_ok hr
    have hr63 : r ≤ 2 ^ 63 := hceil.least 63 hle
    rw [roundUpToNearestPow2_eq (lt_of_lt_of_le hpos hceil.le) hr63]
    exact congrArg Except.ok ((isCeilPow2_clog r).eq hceil.self)

end Wasabi
