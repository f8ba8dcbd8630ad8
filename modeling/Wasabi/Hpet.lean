import Wasabi.Usize
import Mathlib.Algebra.Order.Field.Rat
import Mathlib.Tactic.FieldSimp
import Mathlib.Tactic.Linarith
import Mathlib.Tactic.Positivity

namespace Wasabi
set_option autoImplicit true

def timerConfigIntEnable : BitVec 64 := 1 <<< 2

def timerConfigUsePeriodic : BitVec 64 := 1 <<< 3

structure HpetRegisters where
  capabilitiesAndId : BitVec 64
  configuration : BitVec 64
  mainCounterValue : BitVec 64
  timers : Fin 32 → BitVec 64

namespace HpetRegisters

def fsPerCount (registers : HpetRegisters) : Nat := (registers.capabilitiesAndId >>> 32).toNat

def globallyDisable (registers : HpetRegisters) : HpetRegisters :=
  { registers with configuration := registers.configuration &&& ~~~0b11 }

def globallyEnable (registers : HpetRegisters) : HpetRegisters :=
  { registers with configuration := registers.configuration ||| 0b01 }

def stopTimer (registers : HpetRegisters) (i : Nat) : Except Fault HpetRegisters :=
  if h : i < 32 then
    let config := registers.timers ⟨i, h⟩ &&&
      ~~~(timerConfigIntEnable ||| timerConfigUsePeriodic ||| 0b11111 <<< 9)
    .ok { registers with timers := Function.update registers.timers ⟨i, h⟩ config }
  else .error .outOfBounds

theorem freq_pos {registers : HpetRegisters} (h : registers.fsPerCount ≠ 0) :
    0 < 1000000000000000 / registers.fsPerCount := by
  have hlt : registers.fsPerCount < 2 ^ 32 := by
    rw [fsPerCount, BitVec.toNat_ushiftRight, Nat.shiftRight_eq_div_pow]
    have hcap := registers.capabilitiesAndId.isLt
    omega
  exact Nat.div_pos (by omega) (Nat.pos_of_ne_zero h)

end HpetRegisters

structure Hpet where
  registers : HpetRegisters
  numOfTimers : Nat
  freq : Nat
  freq_pos : 0 < freq

namespace Hpet

/-- A period of zero panics in the division. -/
def new (registers : HpetRegisters) : Except Fault Hpet := do
  let numOfTimers := ((registers.capabilitiesAndId >>> 8) &&& 0b11111).toNat + 1
  if h : registers.fsPerCount = 0 then throw .assertion
  else
    let stopped ← (List.range numOfTimers).foldlM HpetRegisters.stopTimer registers.globallyDisable
    let reset := { stopped with mainCounterValue := 0 }
    return ⟨reset.globallyEnable, numOfTimers, 1000000000000000 / registers.fsPerCount,
      HpetRegisters.freq_pos h⟩

def mainCounter (hpet : Hpet) : BitVec 64 := hpet.registers.mainCounterValue

def reading (hpet : Hpet) (c : BitVec 64) : Hpet :=
  { hpet with registers := { hpet.registers with mainCounterValue := c } }

end Hpet

/-- A `Duration` in nanoseconds; its seconds are a `u64`. -/
structure Duration where
  asNanos : Nat
  lt : asNanos < 2 ^ 64 * 1000000000

namespace Duration

instance : LE Duration := ⟨fun d e => d.asNanos ≤ e.asNanos⟩

instance : LT Duration := ⟨fun d e => d.asNanos < e.asNanos⟩

instance (d e : Duration) : Decidable (d < e) :=
  inferInstanceAs (Decidable (d.asNanos < e.asNanos))

def zero : Duration := ⟨0, by decide⟩

def fromNanos (nanos : BitVec 64) : Duration := ⟨nanos.toNat, by omega⟩

/-- `+` is `checked_add` followed by `expect`. -/
def add (d e : Duration) : Except Fault Duration :=
  if h : d.asNanos + e.asNanos < 2 ^ 64 * 1000000000 then .ok ⟨_, h⟩ else .error .unwrap

end Duration

def globalTimestamp : Option Hpet → Duration
  | some hpet =>
    let ns := hpet.mainCounter.toNat * 1000000000 / hpet.freq
    Duration.fromNanos (BitVec.ofNat 64 ns)
  | none => Duration.zero

inductive Poll where
  | ready
  | pending

structure TimeoutFuture where
  timeOut : Duration

namespace TimeoutFuture

def new (hpet : Option Hpet) (duration : Duration) : Except Fault TimeoutFuture := do
  return ⟨← (globalTimestamp hpet).add duration⟩

def poll (this : TimeoutFuture) (hpet : Option Hpet) : Poll :=
  if this.timeOut < globalTimestamp hpet then .ready else .pending

end TimeoutFuture

/-- The `M`-ths of a second in `c` counts, by a rounded frequency: a second has `N` units, and a
count takes `p` of them. -/
def scaled (N M p c : Nat) : Nat := c * M / (N / p)

section
variable {N M p c c' d : Nat}

theorem scaled_mono (h : c ≤ c') : scaled N M p c ≤ scaled N M p c' :=
  Nat.div_le_div_right (Nat.mul_le_mul_right M h)

theorem freq_mul_lt (hp : 0 < p) (N : Nat) : N < N / p * p + p := by
  have hlt := Nat.lt_mul_div_succ N hp
  rwa [Nat.mul_comm, Nat.succ_mul] at hlt

theorem lt_scaled_freq (hp : 0 < p) (hle : p ≤ N) :
    c * M < (scaled N M p c + 1) * (N / p) := by
  rw [Nat.mul_comm (scaled N M p c + 1)]
  exact Nat.lt_mul_div_succ (c * M) (Nat.div_pos hle hp)

/-- The frequency is rounded down, so that the time runs fast: at most one unit is missing. -/
theorem lt_scaled_succ (hp : 0 < p) (hle : p ≤ N) : c * p * M < (scaled N M p c + 1) * N := by
  calc
    c * p * M = c * M * p := by ring
    _ < (scaled N M p c + 1) * (N / p) * p := Nat.mul_lt_mul_of_pos_right (lt_scaled_freq hp hle) hp
    _ = (scaled N M p c + 1) * (N / p * p) := Nat.mul_assoc _ _ _
    _ ≤ (scaled N M p c + 1) * N := Nat.mul_le_mul_left _ (Nat.div_mul_le_self N p)

/-- Between two readings more than `d` apart, the true time is at least `d`, but for the share by
which the frequency is rounded. -/
theorem lt_of_scaled_add_lt (hp : 0 < p) (hle : p ≤ N)
    (h : scaled N M p c + d < scaled N M p c') : d * N + c * p * M < c' * p * M + d * p := by
  have hfrom : c * M < (scaled N M p c + 1) * (N / p) := lt_scaled_freq hp hle
  have hto : (scaled N M p c + d + 1) * (N / p) ≤ c' * M :=
    (Nat.mul_le_mul_right _ h).trans (Nat.div_mul_le_self _ _)
  have hcounts : d * (N / p) + c * M < c' * M := by
    have hsplit : (scaled N M p c + d + 1) * (N / p) =
        d * (N / p) + (scaled N M p c + 1) * (N / p) := by ring
    omega
  have hround : d * N ≤ d * (N / p * p + p) := Nat.mul_le_mul_left d (freq_mul_lt hp N).le
  have htimes : (d * (N / p) + c * M) * p < c' * M * p := Nat.mul_lt_mul_of_pos_right hcounts hp
  calc
    d * N + c * p * M ≤ d * (N / p * p + p) + c * p * M := Nat.add_le_add_right hround _
    _ = (d * (N / p) + c * M) * p + d * p := by ring
    _ < c' * M * p + d * p := Nat.add_lt_add_right htimes _
    _ = c' * p * M + d * p := by ring

theorem scaled_mul_le (hp : 0 < p) : scaled N M p c * N ≤ c * p * M + scaled N M p c * p := by
  have hround := Nat.mul_le_mul_left (scaled N M p c) (freq_mul_lt hp N).le
  have hcount : scaled N M p c * (N / p) * p ≤ c * M * p :=
    Nat.mul_le_mul_right p (Nat.div_mul_le_self _ _)
  calc
    scaled N M p c * N ≤ scaled N M p c * (N / p * p + p) := hround
    _ = scaled N M p c * (N / p) * p + scaled N M p c * p := by ring
    _ ≤ c * M * p + scaled N M p c * p := Nat.add_le_add_right hcount _
    _ = c * p * M + scaled N M p c * p := by ring

end

def trueNanos (p : Nat) (c : BitVec 64) : ℚ := c.toNat * p / 10 ^ 6

section
variable {registers : HpetRegisters} {hpet : Hpet} {c c' : BitVec 64}

theorem Hpet.new_freq (h : Hpet.new registers = .ok hpet) :
    0 < registers.fsPerCount ∧ hpet.freq = 10 ^ 15 / registers.fsPerCount := by
  unfold Hpet.new at h
  dsimp only at h
  split at h
  · cases h
  · next hfs =>
    obtain ⟨stopped, _, h⟩ := exists_of_bind h
    cases h
    exact ⟨Nat.pos_of_ne_zero hfs, rfl⟩

theorem globalTimestamp_asNanos (h : Hpet.new registers = .ok hpet)
    (hfit : c.toNat * 1000000000 / hpet.freq < 2 ^ 64) :
    (globalTimestamp (some (hpet.reading c))).asNanos =
      scaled (10 ^ 15) (10 ^ 9) registers.fsPerCount c.toNat := by
  have hfreq := (Hpet.new_freq h).2
  have hnanos : (globalTimestamp (some (hpet.reading c))).asNanos =
      c.toNat * 1000000000 / hpet.freq % 2 ^ 64 := BitVec.toNat_ofNat _ _
  rw [hnanos, Nat.mod_eq_of_lt hfit, hfreq]
  rfl

theorem trueNanos_lt {p : Nat} (hp : 0 < p) (hle : p ≤ 10 ^ 8) (c : BitVec 64) :
    trueNanos p c - 1 < scaled (10 ^ 15) (10 ^ 9) p c.toNat := by
  have hnat : c.toNat * p * 10 ^ 9 < (scaled (10 ^ 15) (10 ^ 9) p c.toNat + 1) * 10 ^ 15 :=
    lt_scaled_succ hp (by omega)
  have hrat : (c.toNat * p * 10 ^ 9 : ℚ) < (scaled (10 ^ 15) (10 ^ 9) p c.toNat + 1) * 10 ^ 15 := by
    exact_mod_cast hnat
  rw [trueNanos, sub_lt_iff_lt_add, div_lt_iff₀ (by norm_num)]
  linarith

theorem le_trueNanos {p : Nat} (hp : 0 < p) (hle : p ≤ 10 ^ 8) (c : BitVec 64) :
    (scaled (10 ^ 15) (10 ^ 9) p c.toNat : ℚ) ≤ trueNanos p c * 10 ^ 15 / (10 ^ 15 - p) := by
  have hnat := @scaled_mul_le (10 ^ 15) (10 ^ 9) p c.toNat hp
  have hrat : (scaled (10 ^ 15) (10 ^ 9) p c.toNat * 10 ^ 15 : ℚ) ≤
      c.toNat * p * 10 ^ 9 + scaled (10 ^ 15) (10 ^ 9) p c.toNat * p := by
    exact_mod_cast hnat
  have hp' : (p : ℚ) ≤ 10 ^ 8 := by exact_mod_cast hle
  have htrue : trueNanos p c * 10 ^ 15 = c.toNat * p * 10 ^ 9 := by
    unfold trueNanos
    ring
  rw [htrue, le_div_iff₀ (by linarith), mul_sub]
  linarith

theorem lt_trueNanos_sub {p d : Nat} (hp : 0 < p) (hle : p ≤ 10 ^ 8) (c c' : BitVec 64)
    (h : scaled (10 ^ 15) (10 ^ 9) p c.toNat + d < scaled (10 ^ 15) (10 ^ 9) p c'.toNat) :
    (d : ℚ) < (trueNanos p c' - trueNanos p c) * 10 ^ 15 / (10 ^ 15 - p) := by
  have hnat : d * 10 ^ 15 + c.toNat * p * 10 ^ 9 < c'.toNat * p * 10 ^ 9 + d * p :=
    lt_of_scaled_add_lt hp (by omega) h
  have hrat : (d * 10 ^ 15 + c.toNat * p * 10 ^ 9 : ℚ) < c'.toNat * p * 10 ^ 9 + d * p := by
    exact_mod_cast hnat
  have hp' : (p : ℚ) ≤ 10 ^ 8 := by exact_mod_cast hle
  rw [trueNanos, trueNanos, lt_div_iff₀ (by linarith)]
  linarith

theorem TimeoutFuture.poll_ready {t : TimeoutFuture} :
    t.poll h = .ready ↔ t.timeOut < globalTimestamp h := by
  unfold TimeoutFuture.poll
  split
  · next hlt => exact iff_of_true rfl hlt
  · next hge =>
    refine iff_of_false (fun he => ?_) hge
    cases he

end

/-- Between two readings of the counter the time does not go back, and what was ready stays ready.
The reported time is at most one nanosecond behind the true one, and ahead of it, as the end of a
timeout is, by a bounded share only. -/
structure Timekeeping (p : Nat) (hpet : Hpet) (c c' : BitVec 64) : Prop where
  monotone : globalTimestamp (some (hpet.reading c)) ≤ globalTimestamp (some (hpet.reading c'))
  stays_ready : ∀ t : TimeoutFuture, t.poll (some (hpet.reading c)) = .ready →
    t.poll (some (hpet.reading c')) = .ready
  above : trueNanos p c' - 1 < (globalTimestamp (some (hpet.reading c'))).asNanos
  below : ((globalTimestamp (some (hpet.reading c'))).asNanos : ℚ) ≤
    trueNanos p c' * 10 ^ 15 / (10 ^ 15 - p)
  sleeps : ∀ (duration : Duration) t, TimeoutFuture.new (some (hpet.reading c)) duration = .ok t →
    t.poll (some (hpet.reading c')) = .ready →
    (duration.asNanos : ℚ) < (trueNanos p c' - trueNanos p c) * 10 ^ 15 / (10 ^ 15 - p)

theorem timestamps_accurate (registers : HpetRegisters) (hpet : Hpet)
    (hnew : Hpet.new registers = .ok hpet)
    (hp : 1 ≤ registers.fsPerCount ∧ registers.fsPerCount ≤ 0x05F5E100) (c c' : BitVec 64)
    (hle : c.toNat ≤ c'.toNat) (hfit : c'.toNat * 1000000000 / hpet.freq < 2 ^ 64) :
    Timekeeping registers.fsPerCount hpet c c' := by
  have hpos : 0 < registers.fsPerCount := hp.1
  have hmax : registers.fsPerCount ≤ 10 ^ 8 := hp.2
  have hfit' : c.toNat * 1000000000 / hpet.freq < 2 ^ 64 :=
    lt_of_le_of_lt (Nat.div_le_div_right (Nat.mul_le_mul_right _ hle)) hfit
  have hfrom := globalTimestamp_asNanos hnew hfit'
  have hto := globalTimestamp_asNanos hnew hfit
  have hmono : (globalTimestamp (some (hpet.reading c))).asNanos ≤
      (globalTimestamp (some (hpet.reading c'))).asNanos := by
    rw [hfrom, hto]
    exact scaled_mono hle
  refine ⟨hmono, fun t ht => ?_, ?_, ?_, fun duration t ht hready => ?_⟩
  · exact TimeoutFuture.poll_ready.2 (lt_of_lt_of_le (TimeoutFuture.poll_ready.1 ht) hmono)
  · rw [hto]
    exact trueNanos_lt hpos hmax c'
  · rw [hto]
    exact le_trueNanos hpos hmax c'
  · obtain ⟨timeOut, hadd, ht⟩ := exists_of_bind ht
    cases ht
    unfold Duration.add at hadd
    split at hadd
    · cases hadd
      have hlt := TimeoutFuture.poll_ready.1 hready
      have hnat : (globalTimestamp (some (hpet.reading c))).asNanos + duration.asNanos <
          (globalTimestamp (some (hpet.reading c'))).asNanos := hlt
      rw [hfrom, hto] at hnat
      exact lt_trueNanos_sub hpos hmax c c' hnat
    · cases hadd

theorem timestamps_accurate_ten_ns :
    ∃ hpet, Hpet.new ⟨0x0098968000000000, 0, 0, fun _ => 0⟩ = .ok hpet ∧
      Timekeeping 10000000 hpet 100 2500000000 :=
  ⟨_, rfl, timestamps_accurate ⟨0x0098968000000000, 0, 0, fun _ => 0⟩ _ rfl (by decide) 100
    2500000000 (by decide) (by decide)⟩

end Wasabi
