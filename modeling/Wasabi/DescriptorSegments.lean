import Wasabi.DescriptorWalk

namespace Wasabi
set_option autoImplicit true
open DescriptorIterator

/-- The offset behind `n` segments that are each as long as their own first byte. -/
def segmentStart (buf : List UInt8) : Nat → Nat
  | 0 => 0
  | n + 1 => segmentStart buf n + (buf.getD (segmentStart buf n) 0).toNat

def segmentLength (buf : List UInt8) (i : Nat) : Nat := (buf.getD (segmentStart buf i) 0).toNat

def segmentType (buf : List UInt8) (i : Nat) : UInt8 := buf.getD (segmentStart buf i + 1) 0

def segmentItem (buf : List UInt8) (i : Nat) : UsbDescriptor :=
  descriptorOf fun k => buf.getD (segmentStart buf i + k) 0

def SegmentRoom (buf : List UInt8) (i : Nat) : Prop :=
  segmentStart buf i + minLength (segmentType buf i) ≤ buf.length

/-- A run of the iterator over a buffer, with the items it has yielded. -/
inductive Yields (buf : List UInt8) : List UsbDescriptor → DescriptorIterator → Prop where
  | nil : Yields buf [] (.new buf)
  | snoc : Yields buf ds it → next it = .ok (some d) it' → Yields buf (ds ++ [d]) it'

/-- Each item of a run has a segment of the buffer that alone determines it: changing the bytes
outside it, with the lengths of the segments before it unchanged, does not change the item. -/
structure OwnSegments (buf : List UInt8) (ds : List UsbDescriptor) : Prop where
  within : ∀ i < ds.length, segmentStart buf (i + 1) ≤ buf.length
  own : ∀ i d buf' ds' it d', ds[i]? = some d → buf'.length = buf.length →
    (∀ k, segmentStart buf i ≤ k → k < segmentStart buf (i + 1) →
      buf'.getD k 0 = buf.getD k 0) →
    (∀ j < i, buf'.getD (segmentStart buf j) 0 = buf.getD (segmentStart buf j) 0) →
    Yields buf' ds' it → ds'[i]? = some d' → d' = d

/-- The length byte covers the fields of the type and ends inside the buffer. -/
structure SegmentFits (buf : List UInt8) (i : Nat) : Prop where
  covers : minLength (segmentType buf i) ≤ segmentLength buf i
  within : segmentStart buf (i + 1) ≤ buf.length

section
variable {buf buf' : List UInt8} {ds : List UsbDescriptor} {it : DescriptorIterator} {i n : Nat}

theorem segmentStart_succ :
    segmentStart buf (i + 1) = segmentStart buf i + segmentLength buf i := rfl

theorem segmentStart_mono (h : i ≤ n) : segmentStart buf i ≤ segmentStart buf n := by
  induction h with
  | refl => exact Nat.le_refl _
  | step _ ih => exact Nat.le_trans ih (Nat.le_add_right _ _)

theorem segmentStart_congr
    (h : ∀ j < i, buf'.getD (segmentStart buf j) 0 = buf.getD (segmentStart buf j) 0) :
    segmentStart buf' i = segmentStart buf i := by
  induction i with
  | zero => rfl
  | succ i ih =>
    have hi := ih fun j hj => h j (by omega)
    rw [segmentStart, segmentStart, hi, h i (Nat.lt_succ_self i)]

/-- The items of a run are those of the segments, in order. -/
theorem Yields.inv (h : Yields buf ds it) :
    it = ⟨buf, segmentStart buf ds.length⟩ ∧
      ∀ i d, ds[i]? = some d → SegmentRoom buf i ∧ d = segmentItem buf i := by
  induction h with
  | nil =>
    refine ⟨rfl, fun i d hd => ?_⟩
    rw [List.getElem?_nil] at hd
    cases hd
  | @snoc ds it d it' _ hnext ih =>
    obtain ⟨hit, hitems⟩ := ih
    rw [hit] at hnext
    obtain ⟨hlt, hle, hd, hit'⟩ := next_inv buf _ hnext
    refine ⟨?_, fun i e he => ?_⟩
    · rw [hit', List.length_append]
      rfl
    · rcases Nat.lt_trichotomy i ds.length with hlt' | heq | hgt
      · rw [List.getElem?_append_left hlt'] at he
        exact hitems i e he
      · subst heq
        rw [List.getElem?_concat_length] at he
        cases he
        refine ⟨?_, hd⟩
        rw [SegmentRoom, segmentType]
        omega
      · rw [List.getElem?_eq_none (by rw [List.length_append]; exact hgt)] at he
        cases he

theorem yields_of_room (h : ∀ i < n, SegmentRoom buf i) :
    Yields buf ((List.range n).map (segmentItem buf)) ⟨buf, segmentStart buf n⟩ := by
  induction n with
  | zero => exact .nil
  | succ n ih =>
    have hroom := h n (Nat.lt_succ_self n)
    rw [SegmentRoom] at hroom
    have htwo := two_le_minLength (segmentType buf n)
    have hnext := next_eq buf (segmentStart buf n) (by omega)
    rw [segmentType] at hroom htwo
    rw [if_pos (by omega)] at hnext
    rw [List.range_succ, List.map_append]
    exact .snoc (ih fun i hi => h i (Nat.lt_succ_of_lt hi)) hnext

theorem SegmentFits.item_congr (h : SegmentFits buf i)
    (hstart : segmentStart buf' i = segmentStart buf i)
    (hown : ∀ k, segmentStart buf i ≤ k → k < segmentStart buf (i + 1) →
      buf'.getD k 0 = buf.getD k 0) :
    segmentItem buf i = segmentItem buf' i := by
  refine descriptorOf_congr fun k hk => ?_
  have hcovers := h.covers
  rw [segmentType] at hcovers
  rw [hstart, hown _ (Nat.le_add_right _ _)]
  rw [segmentStart_succ]
  omega

/-- The last byte of the fields, by which a change outside a short segment shows. -/
def UsbDescriptor.lastByte : UsbDescriptor → UInt8
  | .config desc => desc.maxPower
  | .endpoint desc => desc.interval
  | .interface desc => desc.interfaceIndex
  | .unknown _ descType => descType

theorem lastByte_descriptorOf (f : Nat → UInt8) :
    (descriptorOf f).lastByte = f (minLength (f 1) - 1) := by
  unfold descriptorOf
  by_cases hconfig : f 1 = UsbDescriptorType.config.value
  · rw [if_pos hconfig, minLength_config hconfig]
    rfl
  rw [if_neg hconfig]
  by_cases hinterface : f 1 = UsbDescriptorType.interface.value
  · rw [if_pos hinterface, minLength_interface hinterface]
    rfl
  rw [if_neg hinterface]
  by_cases hendpoint : f 1 = UsbDescriptorType.endpoint.value
  · rw [if_pos hendpoint, minLength_endpoint hendpoint]
    rfl
  · rw [if_neg hendpoint, minLength_unknown hconfig hinterface hendpoint]
    rfl

def lastField (buf : List UInt8) (i : Nat) : Nat :=
  segmentStart buf i + (minLength (segmentType buf i) - 1)

theorem start_lt_lastField (h : n ≤ i) : segmentStart buf n < lastField buf i := by
  have hmono : segmentStart buf n ≤ segmentStart buf i := segmentStart_mono h
  have htwo := two_le_minLength (segmentType buf i)
  rw [lastField]
  omega

theorem segmentItem_lastByte : (segmentItem buf i).lastByte = buf.getD (lastField buf i) 0 :=
  lastByte_descriptorOf _

theorem SegmentRoom.lastField_lt (h : SegmentRoom buf i) : lastField buf i < buf.length := by
  have htwo := two_le_minLength (segmentType buf i)
  rw [SegmentRoom] at h
  rw [lastField]
  omega

theorem getD_set_ne (h : k ≠ n) : (buf.set n b).getD k 0 = buf.getD k 0 := by
  rw [List.getD_eq_getElem?_getD, List.getElem?_set_ne (Ne.symm h), List.getD_eq_getElem?_getD]

theorem getD_set_self (h : n < buf.length) : (buf.set n b).getD n 0 = b := by
  rw [List.getD_eq_getElem?_getD, List.getElem?_set_self h, Option.getD_some]

theorem segmentStart_set (h : n ≤ i) :
    segmentStart (buf.set (lastField buf i) b) n = segmentStart buf n :=
  segmentStart_congr fun _ hj =>
    getD_set_ne (Nat.ne_of_lt (start_lt_lastField (Nat.le_trans (Nat.le_of_lt hj) h)))

theorem minLength_set (hb : minLength b = 2) (hroom : SegmentRoom buf i) (h : n ≤ i) :
    minLength (segmentType (buf.set (lastField buf i) b) n) = minLength (segmentType buf n) := by
  by_cases heq : segmentStart buf n + 1 = lastField buf i
  · have hstart : segmentStart buf n = segmentStart buf i ∧ minLength (segmentType buf i) = 2 := by
      have hmono : segmentStart buf n ≤ segmentStart buf i := segmentStart_mono h
      have htwo := two_le_minLength (segmentType buf i)
      rw [lastField] at heq
      omega
    have htype : segmentType buf n = segmentType buf i := by
      rw [segmentType, segmentType, hstart.1]
    rw [segmentType, segmentStart_set h, heq, getD_set_self hroom.lastField_lt, htype, hb, hstart.2]
  · rw [segmentType, segmentStart_set h, getD_set_ne heq, segmentType]

theorem lastField_set (hb : minLength b = 2) (hroom : SegmentRoom buf i) :
    lastField (buf.set (lastField buf i) b) i = lastField buf i := by
  have hle := Nat.le_refl i
  rw [lastField, segmentStart_set hle, minLength_set hb hroom hle, lastField]

theorem exists_unknown_type (b : UInt8) : ∃ b', b' ≠ b ∧ minLength b' = 2 := by
  by_cases h : b = 0
  · exact ⟨1, by rw [h]; decide, rfl⟩
  · exact ⟨0, Ne.symm h, rfl⟩

/-- The run over the changed buffer gets to the same segment, and there to another item. -/
theorem OwnSegments.covers (h : OwnSegments buf ds) (hrun : Yields buf ds it) (hi : i < ds.length) :
    minLength (segmentType buf i) ≤ segmentLength buf i := by
  by_contra hshort
  have hitem := fun j (hj : j < ds.length) => hrun.inv.2 j ds[j] (List.getElem?_eq_getElem hj)
  obtain ⟨b, hne, hb⟩ := exists_unknown_type (buf.getD (lastField buf i) 0)
  have hroom : ∀ j < i + 1, SegmentRoom (buf.set (lastField buf i) b) j := by
    intro j hj
    have hle : j ≤ i := Nat.le_of_lt_succ hj
    have hroomj := (hitem j (by omega)).1
    rw [SegmentRoom] at hroomj ⊢
    rw [segmentStart_set hle, minLength_set hb (hitem i hi).1 hle, List.length_set]
    exact hroomj
  have hrun' := yields_of_room hroom
  have hget : ((List.range (i + 1)).map (segmentItem (buf.set (lastField buf i) b)))[i]? =
      some (segmentItem (buf.set (lastField buf i) b) i) := by
    rw [List.getElem?_map, List.getElem?_range (Nat.lt_succ_self i)]
    rfl
  have hsame := h.own i ds[i] _ _ _ _ (List.getElem?_eq_getElem hi) List.length_set
    (fun k _ hk => getD_set_ne ?_) (fun j hj => getD_set_ne ?_) hrun' hget
  · rw [(hitem i hi).2] at hsame
    have hlast := congrArg UsbDescriptor.lastByte hsame
    rw [segmentItem_lastByte, segmentItem_lastByte, lastField_set hb (hitem i hi).1,
      getD_set_self (hitem i hi).1.lastField_lt] at hlast
    exact hne hlast
  · rw [segmentStart_succ] at hk
    rw [lastField]
    omega
  · exact Nat.ne_of_lt (start_lt_lastField (Nat.le_of_lt hj))

/-- The items of a run have segments of their own exactly when each length byte on the way covers
the fields of its type and ends inside the buffer. -/
theorem own_segments_iff (h : Yields buf ds it) :
    OwnSegments buf ds ↔ ∀ i < ds.length, SegmentFits buf i := by
  constructor
  · intro hown i hi
    exact ⟨hown.covers h hi, hown.within i hi⟩
  · intro hfits
    refine ⟨fun i hi => (hfits i hi).within, ?_⟩
    intro i d buf' ds' it d' hd _ hsame hlengths hrun' hd'
    have hi : i < ds.length := (List.getElem?_eq_some_iff.1 hd).1
    rw [(h.inv.2 i d hd).2, (hrun'.inv.2 i d' hd').2]
    exact ((hfits i hi).item_congr (segmentStart_congr hlengths) hsame).symm

end

theorem own_segments_iff_keyboard :
    OwnSegments [9, 4, 0, 0, 1, 3, 1, 1, 0, 7, 5, 0x81, 3, 8, 0, 10]
      [.interface ⟨9, 4, 0, 0, 1, 3, 1, 1, 0⟩, .endpoint ⟨7, 5, 0x81, 3, 8, 10⟩] := by
  have hrun : Yields [9, 4, 0, 0, 1, 3, 1, 1, 0, 7, 5, 0x81, 3, 8, 0, 10]
      [.interface ⟨9, 4, 0, 0, 1, 3, 1, 1, 0⟩, .endpoint ⟨7, 5, 0x81, 3, 8, 10⟩] ⟨_, 16⟩ :=
    .snoc (.snoc .nil rfl) rfl
  refine (own_segments_iff hrun).2 fun i hi => ?_
  match i, hi with
  | 0, _ => exact ⟨by decide, by decide⟩
  | 1, _ => exact ⟨by decide, by decide⟩

/-- A configuration of length 2 has its fields from the interface behind it, so that a change of
the interface changes it. -/
theorem own_segments_short_config :
    ∃ it, Yields [2, 2, 9, 4, 0, 0, 1, 3, 1, 1, 0]
      [.config ⟨2, 2, 0x409, 0, 0, 1, 3, 1⟩, .interface ⟨9, 4, 0, 0, 1, 3, 1, 1, 0⟩] it ∧
      ¬OwnSegments [2, 2, 9, 4, 0, 0, 1, 3, 1, 1, 0]
        [.config ⟨2, 2, 0x409, 0, 0, 1, 3, 1⟩, .interface ⟨9, 4, 0, 0, 1, 3, 1, 1, 0⟩] := by
  refine ⟨⟨_, 11⟩, .snoc (.snoc .nil rfl) rfl, fun h => ?_⟩
  have hrun : Yields [2, 2, 9, 4, 0, 0, 1, 3, 0, 1, 0] [.config ⟨2, 2, 0x409, 0, 0, 1, 3, 0⟩]
      ⟨_, 2⟩ := .snoc .nil rfl
  have hsame := h.own 0 _ [2, 2, 9, 4, 0, 0, 1, 3, 0, 1, 0] _ _ _ rfl rfl ?_
    (fun j hj => absurd hj (Nat.not_lt_zero j)) hrun rfl
  · cases hsame
  · intro k _ hk
    match k, hk with
    | 0, _ => rfl
    | 1, _ => rfl

end Wasabi
