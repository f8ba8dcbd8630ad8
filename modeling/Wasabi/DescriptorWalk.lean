import Wasabi.Descriptor

namespace Wasabi
set_option autoImplicit true

namespace DescriptorIterator

section
variable (buf : List UInt8) (i : Nat)

theorem getD_drop (k : Nat) : (buf.drop i).getD k 0 = buf.getD (i + k) 0 := by
  rw [List.getD_eq_getElem?_getD, List.getElem?_drop, List.getD_eq_getElem?_getD]

theorem byteAt_drop (h : i + k < buf.length) :
    byteAt (buf.drop i) k = .ok (buf.getD (i + k) 0) := by
  rw [byteAt, List.getElem?_drop, List.getElem?_eq_getElem h, List.getD_eq_getElem?_getD,
    List.getElem?_eq_getElem h, Option.getD_some]

theorem byteAt_drop_end (h : buf.length ≤ i + k) : byteAt (buf.drop i) k = .error .outOfBounds := by
  rw [byteAt, List.getElem?_drop, List.getElem?_eq_none h]

theorem next_eq (h : i + 1 < buf.length) :
    next ⟨buf, i⟩ =
      if minLength (buf.getD (i + 1) 0) ≤ buf.length - i then
        .ok (some (descriptorOf fun k => buf.getD (i + k) 0)) ⟨buf, i + (buf.getD i 0).toNat⟩
      else .ok none ⟨buf, i⟩ := by
  have hlen : (buf.drop i).length = buf.length - i := List.length_drop
  have hdecode := decode_eq (buf.drop i) (by omega)
  simp only [getD_drop, hlen] at hdecode
  rw [next, get_bind, if_neg (by dsimp only; omega)]
  dsimp only
  rw [ofExcept_bind (byteAt_drop buf i (by omega)), ofExcept_bind (byteAt_drop buf i h), hdecode,
    Nat.add_zero]
  by_cases hle : minLength (buf.getD (i + 1) 0) ≤ buf.length - i
  · rw [if_pos hle, if_pos hle]
    rfl
  · rw [if_neg hle, if_neg hle]
    rfl

theorem next_last (h : i + 1 = buf.length) : next ⟨buf, i⟩ = .error .outOfBounds ⟨buf, i⟩ := by
  rw [next, get_bind, if_neg (by dsimp only; omega)]
  dsimp only
  rw [ofExcept_bind (byteAt_drop buf i (by omega)), byteAt_drop_end buf i (Nat.le_of_eq h.symm)]
  rfl

theorem next_inv (h : next ⟨buf, i⟩ = .ok (some d) it) :
    i + 1 < buf.length ∧ minLength (buf.getD (i + 1) 0) ≤ buf.length - i ∧
      d = descriptorOf (fun k => buf.getD (i + k) 0) ∧ it = ⟨buf, i + (buf.getD i 0).toNat⟩ := by
  rcases Nat.lt_trichotomy (i + 1) buf.length with hlt | heq | hgt
  · rw [next_eq buf i hlt] at h
    split at h
    · next hle =>
      cases h
      exact ⟨hlt, hle, rfl, rfl⟩
    · cases h
  · rw [next_last buf i heq] at h
    cases h
  · rw [next_end ⟨buf, i⟩ (by dsimp only; omega)] at h
    cases h

theorem collect_some (h : next it = .ok (some d) it') (fuel : Nat) :
    collect (fuel + 1) it = (do return d :: (← collect fuel)) it' := by
  rw [collect, bind_of_ok h]

theorem collect_none (h : next it = .ok none it') (fuel : Nat) :
    collect (fuel + 1) it = .ok [] it' := by
  rw [collect, bind_of_ok h]
  rfl

theorem collect_some_ok (h : next it = .ok (some d) it')
    (hok : collect (fuel + 1) it = .ok ds it'') : ∃ ds, collect fuel it' = .ok ds it'' := by
  rw [collect_some h] at hok
  cases hx : collect fuel it' with
  | ok ds it =>
    rw [bind_of_ok hx] at hok
    cases hok
    exact ⟨ds, rfl⟩
  | error e it =>
    rw [bind_of_error hx] at hok
    cases hok

end

end DescriptorIterator

open DescriptorIterator

/-- The offsets that the length bytes lead to from the start of a buffer, as long as the rest of the
buffer is long enough for the type. -/
inductive Reached (buf : List UInt8) : Nat → Prop where
  | start : Reached buf 0
  | step : Reached buf i → i + 1 < buf.length →
      minLength (buf.getD (i + 1) 0) ≤ buf.length - i → Reached buf (i + (buf.getD i 0).toNat)

/-- There is a type byte, and the length of a descriptor that is decoded is not 0. -/
structure SoundAt (buf : List UInt8) (i : Nat) : Prop where
  typed : i + 1 ≠ buf.length
  advances : i + 1 < buf.length → minLength (buf.getD (i + 1) 0) ≤ buf.length - i →
    buf.getD i 0 ≠ 0

section
variable {buf : List UInt8} {i : Nat}

theorem Reached.collect_ok (h : Reached buf i) (hrun : collect fuel (.new buf) = .ok ds it) :
    ∃ fuel ds, collect fuel ⟨buf, i⟩ = .ok ds it := by
  induction h with
  | start => exact ⟨fuel, ds, hrun⟩
  | @step i _ hlt hle ih =>
    obtain ⟨fuel, ds, hok⟩ := ih
    have hnext := next_eq buf i hlt
    rw [if_pos hle] at hnext
    cases fuel with
    | zero => cases hok
    | succ fuel =>
      obtain ⟨ds, hok⟩ := collect_some_ok hnext hok
      exact ⟨fuel, ds, hok⟩

theorem collect_stuck (hnext : next it = .ok (some d) it) (fuel : Nat) :
    collect fuel it ≠ .ok ds it' := by
  induction fuel generalizing ds with
  | zero =>
    intro h
    cases h
  | succ fuel ih =>
    intro h
    obtain ⟨ds, hok⟩ := collect_some_ok hnext h
    exact ih hok

/-- The run from a reached offset, by induction on a bound on the bytes that are left. -/
theorem Reached.collect_ends (hsound : ∀ i, Reached buf i → SoundAt buf i) (h : Reached buf i)
    (hn : buf.length - i ≤ n) :
    ∃ ds it, collect (n + 1) ⟨buf, i⟩ = .ok ds it ∧ ds.length ≤ n := by
  induction n generalizing i with
  | zero =>
    exact ⟨[], _, collect_none (next_end ⟨buf, i⟩ (by dsimp only; omega)) 0, Nat.le_refl 0⟩
  | succ n ih =>
    have hs := hsound i h
    rcases Nat.lt_trichotomy (i + 1) buf.length with hlt | heq | hgt
    · have hnext := next_eq buf i hlt
      by_cases hle : minLength (buf.getD (i + 1) 0) ≤ buf.length - i
      · rw [if_pos hle] at hnext
        have hpos : (buf.getD i 0).toNat ≠ 0 :=
          fun hz => hs.advances hlt hle (UInt8.toNat_inj.1 hz)
        obtain ⟨ds, it, hok, hlen⟩ := ih (h.step hlt hle) (by omega)
        refine ⟨(descriptorOf fun k => buf.getD (i + k) 0) :: ds, it, ?_, Nat.succ_le_succ hlen⟩
        rw [collect_some hnext, bind_of_ok hok]
        rfl
      · rw [if_neg hle] at hnext
        exact ⟨[], _, collect_none hnext _, Nat.zero_le _⟩
    · exact absurd heq hs.typed
    · exact ⟨[], _, collect_none (next_end ⟨buf, i⟩ (by dsimp only; omega)) _, Nat.zero_le _⟩

end

/-- Reading the descriptors of a buffer ends with at most one item a byte, and inside the buffer,
for exactly the buffers whose lengths lead neither to a last single byte nor to a length of 0. -/
theorem collect_ends_iff (buf : List UInt8) :
    (∃ fuel ds it, collect fuel (.new buf) = .ok ds it ∧ ds.length ≤ buf.length) ↔
      ∀ i, Reached buf i → SoundAt buf i := by
  constructor
  · rintro ⟨fuel, ds, it, hrun, _⟩ i hi
    obtain ⟨fuel, ds, hok⟩ := hi.collect_ok hrun
    constructor
    case typed =>
      intro hlast
      cases fuel with
      | zero => cases hok
      | succ fuel =>
        rw [collect, bind_of_error (next_last buf i hlast)] at hok
        cases hok
    case advances =>
      intro hlt hle hz
      have hnext := next_eq buf i hlt
      rw [if_pos hle, hz] at hnext
      exact collect_stuck hnext fuel hok
  · intro hsound
    obtain ⟨ds, it, hok, hlen⟩ := Reached.start.collect_ends hsound (Nat.le_refl _)
    exact ⟨_, ds, it, hok, hlen⟩

/-- A tail that stayed zero is a descriptor of length 0, and a single byte has no type byte. -/
theorem collect_zero_tail :
    (¬∃ fuel ds it, collect fuel (.new [0, 0]) = .ok ds it ∧ ds.length ≤ 2) ∧
      next (.new [9]) = .error .outOfBounds (.new [9]) := by
  constructor
  · rintro ⟨fuel, ds, it, hok, _⟩
    have hnext : next (.new [0, 0]) = .ok (some (.unknown 0 0)) (.new [0, 0]) := rfl
    exact collect_stuck hnext fuel hok
  · exact next_last [9] 0 rfl

end Wasabi
