import Mathlib.Data.List.Forall2
import Wasabi.Bytes
import Wasabi.Usize

namespace Wasabi
set_option autoImplicit true

/-- The bytes of a list as a memory, which is zero behind them. -/
def listMem (bytes : List UInt8) : Mem := fun a => bytes.getD a 0

def leBytes : Nat → Nat → List UInt8
  | 0, _ => []
  | n + 1, v => UInt8.ofNat v :: leBytes n (v / 256)

@[simp] theorem length_leBytes (n v : Nat) : (leBytes n v).length = n := by
  induction n generalizing v with
  | zero => rfl
  | succ n ih => rw [leBytes, List.length_cons, ih]

theorem listMem_append (pre post : List UInt8) (b : UInt8) :
    listMem (pre ++ b :: post) pre.length = b := by
  rw [listMem, List.getD_append_right _ _ _ _ (Nat.le_refl _), Nat.sub_self]
  rfl

theorem readLe_leBytes (pre post : List UInt8) (n v : Nat) :
    readLe (listMem (pre ++ leBytes n v ++ post)) pre.length n = v % 256 ^ n := by
  induction n generalizing pre v with
  | zero => rw [readLe, pow_zero, Nat.mod_one]
  | succ n ih =>
    have hbytes : pre ++ leBytes (n + 1) v ++ post =
        (pre ++ [UInt8.ofNat v]) ++ leBytes n (v / 256) ++ post := by simp [leBytes]
    have hfirst : listMem (pre ++ leBytes (n + 1) v ++ post) pre.length = UInt8.ofNat v := by
      rw [List.append_assoc, leBytes, List.cons_append, listMem_append]
    have hrest := ih (pre ++ [UInt8.ofNat v]) (v / 256)
    rw [← hbytes, List.length_append, List.length_singleton] at hrest
    rw [readLe, hfirst, hrest, UInt8.toNat_ofNat', pow_succ' 256 n, Nat.mod_mul]

theorem readLe_field_mod {bytes : List UInt8} (pre post : List UInt8)
    (h : bytes = pre ++ leBytes n v ++ post) (ha : pre.length = a) :
    readLe (listMem bytes) a n = v % 256 ^ n := by
  rw [h, ← ha, readLe_leBytes]

theorem readLe_field {bytes : List UInt8} (pre post : List UInt8)
    (h : bytes = pre ++ leBytes n v ++ post) (ha : pre.length = a) (hv : v < 256 ^ n) :
    readLe (listMem bytes) a n = v := by
  rw [readLe_field_mod pre post h ha, Nat.mod_eq_of_lt hv]

theorem readLe_middle (pre mid post : List UInt8) (h : a + n ≤ mid.length) :
    readLe (listMem (pre ++ mid ++ post)) (pre.length + a) n = readLe (listMem mid) a n := by
  induction n generalizing a with
  | zero => rfl
  | succ n ih =>
    have hbyte : listMem (pre ++ mid ++ post) (pre.length + a) = listMem mid a := by
      rw [listMem, listMem, List.append_assoc, List.getD_append_right _ _ _ _ (by omega),
        Nat.add_sub_cancel_left, List.getD_append _ _ _ _ (by omega)]
    have hrest := ih (a := a + 1) (by omega)
    rw [← Nat.add_assoc] at hrest
    rw [readLe, readLe, hbyte, hrest]

def storeBytes (m : Mem) (p : Nat) (bytes : List UInt8) : Mem := fun a =>
  if p ≤ a ∧ a < p + bytes.length then listMem bytes (a - p) else m a

theorem readLe_storeBytes (bytes : List UInt8) (h : a + n ≤ bytes.length) :
    readLe (storeBytes m p bytes) (p + a) n = readLe (listMem bytes) a n := by
  induction n generalizing a with
  | zero => rfl
  | succ n ih =>
    have hrest := ih (a := a + 1) (by omega)
    rw [← Nat.add_assoc] at hrest
    rw [readLe, readLe, hrest, storeBytes, if_pos (by omega), Nat.add_sub_cancel_left]

theorem length_records {f : α → List UInt8} {xs : List α} (h : ∀ x ∈ xs, (f x).length = n) :
    (xs.flatMap f).length = xs.length * n := by
  induction xs with
  | nil => rw [List.flatMap_nil, List.length_nil, List.length_nil, Nat.zero_mul]
  | cons x xs ih =>
    obtain ⟨hx, hxs⟩ := List.forall_mem_cons.1 h
    rw [List.flatMap_cons, List.length_append, hx, ih hxs, List.length_cons, Nat.succ_mul,
      Nat.add_comm]

theorem records_split {f : α → List UInt8} {xs : List α} (h : ∀ x ∈ xs, (f x).length = n)
    (hi : i < xs.length) :
    ∃ pre post, xs.flatMap f = pre ++ f xs[i] ++ post ∧ pre.length = i * n := by
  refine ⟨(xs.take i).flatMap f, (xs.drop (i + 1)).flatMap f, ?_, ?_⟩
  · rw [← List.flatMap_singleton f xs[i], ← List.flatMap_append, ← List.flatMap_append,
      List.append_assoc, List.singleton_append, List.getElem_cons_drop, List.take_append_drop]
  · rw [length_records fun x hx => h x (List.mem_of_mem_take hx), List.length_take,
      Nat.min_eq_left (Nat.le_of_lt hi)]

theorem readLe_record {f : α → List UInt8} {xs : List α} (h : ∀ x ∈ xs, (f x).length = n)
    (hi : i < xs.length) (hk : a + k ≤ n) :
    readLe (listMem (xs.flatMap f)) (i * n + a) k = readLe (listMem (f xs[i])) a k := by
  obtain ⟨pre, post, hbytes, hpre⟩ := records_split h hi
  rw [hbytes, ← hpre]
  exact readLe_middle pre _ post (by rw [h _ (List.getElem_mem hi)]; exact hk)

/-- What a `for` loop over an iterator sees; `stuck` is the outcome when the fuel does not
suffice. -/
def drain (stuck : ε) (next : σ → Except ε (Option (α × σ))) : Nat → σ → Except ε (List α)
  | 0, _ => throw stuck
  | fuel + 1, s => do
    match ← next s with
    | none => return []
    | some (a, s) => return a :: (← drain stuck next fuel s)

theorem drain_eq {next : σ → Except ε (Option (α × σ))} (state : Nat → σ) (item : Nat → Except ε α)
    (hitem : ∀ k < n, next (state k) = (item k).map fun a => some (a, state (k + 1)))
    (hend : next (state n) = .ok none) (hk : k + rest = n) (hfuel : rest < fuel) :
    drain stuck next fuel (state k) = (List.range' k rest).mapM item := by
  induction rest generalizing k fuel with
  | zero =>
    obtain ⟨fuel, rfl⟩ : ∃ f, fuel = f + 1 := ⟨fuel - 1, by omega⟩
    obtain rfl : k = n := hk
    rw [drain, hend]
    rfl
  | succ rest ih =>
    obtain ⟨fuel, rfl⟩ : ∃ f, fuel = f + 1 := ⟨fuel - 1, by omega⟩
    rw [drain, hitem k (by omega), List.range'_succ, List.mapM_cons]
    cases item k with
    | error e => rfl
    | ok a =>
      have hrest : drain stuck next fuel (state (k + 1)) = (List.range' (k + 1) rest).mapM item :=
        ih (by omega) (by omega)
      change (do let as ← drain stuck next fuel (state (k + 1)); pure (a :: as)) = _
      rw [hrest]
      rfl

theorem drain_mono {next : σ → Except ε (Option (α × σ))} {s : σ}
    (h : drain stuck next fuel s = .ok as) (hle : fuel ≤ fuel') :
    drain stuck next fuel' s = .ok as := by
  induction fuel generalizing fuel' s as with
  | zero => cases h
  | succ fuel ih =>
    obtain ⟨fuel', rfl⟩ : ∃ f, fuel' = f + 1 := ⟨fuel' - 1, by omega⟩
    rw [drain] at h ⊢
    obtain ⟨r, hr, h⟩ := exists_of_bind h
    rw [hr, ok_bind]
    cases r with
    | none => exact h
    | some r =>
      obtain ⟨bs, hbs, h⟩ := exists_of_bind h
      change (do let as ← drain stuck next fuel' r.2; pure (r.1 :: as)) = _
      rw [ih hbs (by omega)]
      exact h

/-- `Iterator::find`. -/
def seek (stuck : ε) (next : σ → Except ε (Option (α × σ))) (p : α → Bool) :
    Nat → σ → Except ε (Option α)
  | 0, _ => throw stuck
  | fuel + 1, s => do
    match ← next s with
    | none => return none
    | some (a, s) => if p a then return some a else seek stuck next p fuel s

theorem seek_eq {next : σ → Except ε (Option (α × σ))} (state : Nat → σ) (item : Nat → α)
    (hitem : ∀ k < n, next (state k) = .ok (some (item k, state (k + 1))))
    (hend : next (state n) = .ok none) (hk : k + rest = n) (hfuel : rest < fuel) :
    seek stuck next p fuel (state k) = .ok (((List.range' k rest).map item).find? p) := by
  induction rest generalizing k fuel with
  | zero =>
    obtain ⟨fuel, rfl⟩ : ∃ f, fuel = f + 1 := ⟨fuel - 1, by omega⟩
    obtain rfl : k = n := hk
    rw [seek, hend]
    rfl
  | succ rest ih =>
    obtain ⟨fuel, rfl⟩ : ∃ f, fuel = f + 1 := ⟨fuel - 1, by omega⟩
    rw [seek, hitem k (by omega), ok_bind, List.range'_succ, List.map_cons]
    dsimp only
    cases hp : p (item k) with
    | true =>
      rw [List.find?_cons_of_pos hp]
      rfl
    | false =>
      rw [List.find?_cons_of_neg (by rw [hp]; exact Bool.false_ne_true)]
      exact ih (by omega) (by omega)

theorem find_range_iff {item : Nat → α} {p : α → Bool} :
    ((List.range' 0 n).map item).find? p = some a ↔
      ∃ i < n, item i = a ∧ p a = true ∧ ∀ j < i, p (item j) = false := by
  rw [List.find?_eq_some_iff_getElem]
  constructor
  · rintro ⟨hp, i, hi, rfl, hbefore⟩
    rw [List.length_map, List.length_range'] at hi
    refine ⟨i, hi, by simp, hp, fun j hj => ?_⟩
    have hnot := hbefore j hj
    simpa using hnot
  · rintro ⟨i, hi, rfl, hp, hbefore⟩
    refine ⟨hp, i, by simpa using hi, by simp, fun j hj => ?_⟩
    simpa using hbefore j hj

theorem mapM_ok_iff {f : α → Except ε β} {xs : List α} {ys : List β} :
    xs.mapM f = .ok ys ↔ List.Forall₂ (fun x y => f x = .ok y) xs ys := by
  induction xs generalizing ys with
  | nil =>
    rw [List.mapM_nil, List.forall₂_nil_left_iff]
    constructor
    · intro h
      cases h
      rfl
    · rintro rfl
      rfl
  | cons x xs ih =>
    rw [List.mapM_cons, List.forall₂_cons_left_iff]
    constructor
    · intro h
      obtain ⟨y, hy, h⟩ := exists_of_bind h
      obtain ⟨ys', hys, h⟩ := exists_of_bind h
      cases h
      exact ⟨y, ys', hy, ih.1 hys, rfl⟩
    · rintro ⟨y, ys', hy, hys, rfl⟩
      rw [hy, ok_bind, ih.2 hys]
      rfl

end Wasabi
