import Wasabi.Bytes
import Wasabi.Outcome
import Wasabi.Usize

namespace Wasabi
set_option autoImplicit true

inductive UsbDescriptorType where
  | device
  | config
  | string
  | interface
  | endpoint
  | report
  deriving DecidableEq, Repr

def UsbDescriptorType.value : UsbDescriptorType → UInt8
  | device => 1
  | config => 2
  | string => 3
  | interface => 4
  | endpoint => 5
  | report => 0x22

structure ConfigDescriptor where
  descLength : UInt8
  descType : UInt8
  totalLength : UInt16
  numOfInterfaces : UInt8
  configValue : UInt8
  configStringIndex : UInt8
  attributeBits : UInt8
  maxPower : UInt8
  deriving DecidableEq, Repr

structure InterfaceDescriptor where
  descLength : UInt8
  descType : UInt8
  interfaceNumber : UInt8
  altSetting : UInt8
  numOfEndpoints : UInt8
  interfaceClass : UInt8
  interfaceSubclass : UInt8
  interfaceProtocol : UInt8
  interfaceIndex : UInt8
  deriving DecidableEq, Repr

structure EndpointDescriptor where
  descLength : UInt8
  descType : UInt8
  endpointAddress : UInt8
  attributes : UInt8
  maxPacketSize : UInt16
  interval : UInt8
  deriving DecidableEq, Repr

inductive UsbDescriptor where
  | config (desc : ConfigDescriptor)
  | endpoint (desc : EndpointDescriptor)
  | interface (desc : InterfaceDescriptor)
  | unknown (descLen descType : UInt8)
  deriving DecidableEq, Repr

def u8 : StateM (List UInt8) UInt8 := fun data => (data.headD 0, data.tail)

def u16 : StateM (List UInt8) UInt16 := do
  let lo ← u8
  let hi ← u8
  return UInt16.ofNat (lo.toNat + 256 * hi.toNat)

/-- `Sliceable::copy_from_slice` for a packed struct of `size` bytes, whose fields `fields` reads in
the order of their declaration. -/
def copyFromSlice (size : Nat) (fields : StateM (List UInt8) α) (data : List UInt8) :
    Except Fault α :=
  if size > data.length then .error (.err "data is too short") else .ok (fields data).1

def ConfigDescriptor.fields : StateM (List UInt8) ConfigDescriptor := do
  return ⟨← u8, ← u8, ← u16, ← u8, ← u8, ← u8, ← u8, ← u8⟩

def InterfaceDescriptor.fields : StateM (List UInt8) InterfaceDescriptor := do
  return ⟨← u8, ← u8, ← u8, ← u8, ← u8, ← u8, ← u8, ← u8, ← u8⟩

def EndpointDescriptor.fields : StateM (List UInt8) EndpointDescriptor := do
  return ⟨← u8, ← u8, ← u8, ← u8, ← u16, ← u8⟩

def ConfigDescriptor.copyFromSlice : List UInt8 → Except Fault ConfigDescriptor :=
  Wasabi.copyFromSlice 9 fields

def InterfaceDescriptor.copyFromSlice : List UInt8 → Except Fault InterfaceDescriptor :=
  Wasabi.copyFromSlice 9 fields

def EndpointDescriptor.copyFromSlice : List UInt8 → Except Fault EndpointDescriptor :=
  Wasabi.copyFromSlice 7 fields

def byteAt (buf : List UInt8) (i : Nat) : Except Fault UInt8 :=
  match buf[i]? with
  | some b => .ok b
  | none => .error .outOfBounds

structure DescriptorIterator where
  buf : List UInt8
  index : Nat
  deriving DecidableEq, Repr

namespace DescriptorIterator

def new (buf : List UInt8) : DescriptorIterator := ⟨buf, 0⟩

/-- The descriptor at the front of `buf`; `none` where the source leaves `next` by `ok()?`. -/
def decode (buf : List UInt8) (descLen descType : UInt8) : Option UsbDescriptor :=
  if descType = UsbDescriptorType.config.value then
    (ConfigDescriptor.copyFromSlice buf).toOption.map .config
  else if descType = UsbDescriptorType.interface.value then
    (InterfaceDescriptor.copyFromSlice buf).toOption.map .interface
  else if descType = UsbDescriptorType.endpoint.value then
    (EndpointDescriptor.copyFromSlice buf).toOption.map .endpoint
  else some (.unknown descLen descType)

def next : EStateM Fault DescriptorIterator (Option UsbDescriptor) := do
  let this ← get
  if this.index ≥ this.buf.length then
    return none
  let buf := this.buf.drop this.index
  let descLen ← MonadExcept.ofExcept (byteAt buf 0)
  let descType ← MonadExcept.ofExcept (byteAt buf 1)
  match decode buf descLen descType with
  | none => return none
  | some desc =>
    set { this with index := this.index + descLen.toNat }
    return some desc

/-- `collect`, in at most `fuel` calls of `next`. -/
def collect : Nat → EStateM Fault DescriptorIterator (List UsbDescriptor)
  | 0 => throw .diverged
  | fuel + 1 => do
    match ← next with
    | none => return []
    | some desc => return desc :: (← collect fuel)

end DescriptorIterator

def minLength (descType : UInt8) : Nat :=
  if descType = UsbDescriptorType.config.value ∨ descType = UsbDescriptorType.interface.value then 9
  else if descType = UsbDescriptorType.endpoint.value then 7
  else 2

/-- The descriptor that a sequence of bytes starts with, field by field. -/
def descriptorOf (byte : Nat → UInt8) : UsbDescriptor :=
  if byte 1 = UsbDescriptorType.config.value then
    .config ⟨byte 0, byte 1, UInt16.ofNat (readLe byte 2 2), byte 4, byte 5, byte 6, byte 7,
      byte 8⟩
  else if byte 1 = UsbDescriptorType.interface.value then
    .interface ⟨byte 0, byte 1, byte 2, byte 3, byte 4, byte 5, byte 6, byte 7, byte 8⟩
  else if byte 1 = UsbDescriptorType.endpoint.value then
    .endpoint ⟨byte 0, byte 1, byte 2, byte 3, UInt16.ofNat (readLe byte 4 2), byte 6⟩
  else .unknown (byte 0) (byte 1)

/-- The bytes of one well-formed descriptor. -/
structure Descriptor where
  bytes : List UInt8
  two_le : 2 ≤ bytes.length
  length_eq : bytes[0].toNat = bytes.length
  min_le : minLength bytes[1] ≤ bytes.length

namespace Descriptor

def byte (d : Descriptor) (offset : Nat) : UInt8 := d.bytes.getD offset 0

def le (d : Descriptor) (offset n : Nat) : Nat := readLe d.byte offset n

def parsed (d : Descriptor) : UsbDescriptor := descriptorOf d.byte

end Descriptor

theorem bind_apply (x : StateM σ α) (f : α → StateM σ β) (s : σ) :
    (x >>= f) s = f (x s).1 (x s).2 := rfl

theorem u8_drop (data : List UInt8) (k : Nat) :
    u8 (data.drop k) = (data.getD k 0, data.drop (k + 1)) := by
  rw [u8, List.tail_drop, List.headD_eq_head?_getD, List.head?_drop, List.getD_eq_getElem?_getD]

theorem u8_eq (data : List UInt8) : u8 data = (data.getD 0 0, data.drop 1) := u8_drop data 0

theorem u16_drop (data : List UInt8) (k : Nat) :
    u16 (data.drop k) = (UInt16.ofNat (readLe (data.getD · 0) k 2), data.drop (k + 2)) := by
  rw [u16, bind_apply, bind_apply, u8_drop, u8_drop]
  rfl

theorem ConfigDescriptor.fields_eq (data : List UInt8) :
    (ConfigDescriptor.fields data).1 = ⟨data.getD 0 0, data.getD 1 0,
      UInt16.ofNat (readLe (data.getD · 0) 2 2), data.getD 4 0, data.getD 5 0, data.getD 6 0,
      data.getD 7 0, data.getD 8 0⟩ := by
  simp only [fields, bind_apply, u8_eq data, u8_drop, u16_drop]
  rfl

theorem InterfaceDescriptor.fields_eq (data : List UInt8) :
    (InterfaceDescriptor.fields data).1 = ⟨data.getD 0 0, data.getD 1 0, data.getD 2 0,
      data.getD 3 0, data.getD 4 0, data.getD 5 0, data.getD 6 0, data.getD 7 0,
      data.getD 8 0⟩ := by
  simp only [fields, bind_apply, u8_eq data, u8_drop]
  rfl

theorem EndpointDescriptor.fields_eq (data : List UInt8) :
    (EndpointDescriptor.fields data).1 = ⟨data.getD 0 0, data.getD 1 0, data.getD 2 0,
      data.getD 3 0, UInt16.ofNat (readLe (data.getD · 0) 4 2), data.getD 6 0⟩ := by
  simp only [fields, bind_apply, u8_eq data, u8_drop, u16_drop]
  rfl

theorem copyFromSlice_ok {fields : StateM (List UInt8) α} (h : size ≤ data.length) :
    copyFromSlice size fields data = .ok (fields data).1 := if_neg (Nat.not_lt.2 h)

theorem copyFromSlice_short {fields : StateM (List UInt8) α} (h : data.length < size) :
    copyFromSlice size fields data = .error (.err "data is too short") := if_pos h

theorem minLength_config (h : ty = UsbDescriptorType.config.value) : minLength ty = 9 := by
  rw [h]
  rfl

theorem minLength_interface (h : ty = UsbDescriptorType.interface.value) : minLength ty = 9 := by
  rw [h]
  rfl

theorem minLength_endpoint (h : ty = UsbDescriptorType.endpoint.value) : minLength ty = 7 := by
  rw [h]
  rfl

theorem minLength_unknown (hconfig : ty ≠ UsbDescriptorType.config.value)
    (hinterface : ty ≠ UsbDescriptorType.interface.value)
    (hendpoint : ty ≠ UsbDescriptorType.endpoint.value) : minLength ty = 2 := by
  rw [minLength, if_neg (not_or.2 ⟨hconfig, hinterface⟩), if_neg hendpoint]

theorem two_le_minLength (ty : UInt8) : 2 ≤ minLength ty := by
  unfold minLength
  split
  · decide
  · split <;> decide

theorem descriptorOf_congr {f g : Nat → UInt8} (h : ∀ k < minLength (f 1), f k = g k) :
    descriptorOf f = descriptorOf g := by
  have htwo := two_le_minLength (f 1)
  have h0 := h 0 (by omega)
  have h1 := h 1 (by omega)
  unfold descriptorOf
  rw [← h0, ← h1]
  by_cases hconfig : f 1 = UsbDescriptorType.config.value
  · rw [minLength_config hconfig] at h
    have hlen : readLe f 2 2 = readLe g 2 2 := readLe_congr fun b _ _ => h b (by omega)
    rw [if_pos hconfig, if_pos hconfig, hlen, h 4 (by omega), h 5 (by omega), h 6 (by omega),
      h 7 (by omega), h 8 (by omega)]
  rw [if_neg hconfig, if_neg hconfig]
  by_cases hinterface : f 1 = UsbDescriptorType.interface.value
  · rw [minLength_interface hinterface] at h
    rw [if_pos hinterface, if_pos hinterface, h 2 (by omega), h 3 (by omega), h 4 (by omega),
      h 5 (by omega), h 6 (by omega), h 7 (by omega), h 8 (by omega)]
  rw [if_neg hinterface, if_neg hinterface]
  by_cases hendpoint : f 1 = UsbDescriptorType.endpoint.value
  · rw [minLength_endpoint hendpoint] at h
    have hlen : readLe f 4 2 = readLe g 4 2 := readLe_congr fun b _ _ => h b (by omega)
    rw [if_pos hendpoint, if_pos hendpoint, hlen, h 2 (by omega), h 3 (by omega), h 6 (by omega)]
  · rw [if_neg hendpoint, if_neg hendpoint]

theorem copyFromSlice_map {fields : StateM (List UInt8) α} (f : α → β) :
    (copyFromSlice size fields data).toOption.map f =
      if size ≤ data.length then some (f (fields data).1) else none := by
  by_cases h : size ≤ data.length
  · rw [copyFromSlice_ok h, if_pos h]
    rfl
  · rw [copyFromSlice_short (Nat.not_le.1 h), if_neg h]
    rfl

/-- Decoding looks at the bytes that are left, not at the declared length. -/
theorem decode_eq (data : List UInt8) (h : 2 ≤ data.length) :
    DescriptorIterator.decode data (data.getD 0 0) (data.getD 1 0) =
      if minLength (data.getD 1 0) ≤ data.length then some (descriptorOf (data.getD · 0))
      else none := by
  rw [DescriptorIterator.decode, descriptorOf]
  by_cases hconfig : data.getD 1 0 = UsbDescriptorType.config.value
  · rw [minLength_config hconfig, if_pos hconfig, if_pos hconfig, ConfigDescriptor.copyFromSlice,
      copyFromSlice_map, ConfigDescriptor.fields_eq]
  rw [if_neg hconfig, if_neg hconfig]
  by_cases hinterface : data.getD 1 0 = UsbDescriptorType.interface.value
  · rw [minLength_interface hinterface, if_pos hinterface, if_pos hinterface,
      InterfaceDescriptor.copyFromSlice, copyFromSlice_map, InterfaceDescriptor.fields_eq]
  rw [if_neg hinterface, if_neg hinterface]
  by_cases hendpoint : data.getD 1 0 = UsbDescriptorType.endpoint.value
  · rw [minLength_endpoint hendpoint, if_pos hendpoint, if_pos hendpoint,
      EndpointDescriptor.copyFromSlice, copyFromSlice_map, EndpointDescriptor.fields_eq]
  · rw [minLength_unknown hconfig hinterface hendpoint, if_neg hendpoint, if_neg hendpoint,
      if_pos h]

namespace Descriptor

variable (d : Descriptor) (rest : List UInt8)

theorem byte_append (h : k < d.bytes.length) : (d.bytes ++ rest).getD k 0 = d.byte k := by
  rw [List.getD_eq_getElem?_getD, List.getElem?_append_left h, byte, List.getD_eq_getElem?_getD]

theorem byte_eq (h : k < d.bytes.length) : d.bytes[k] = d.byte k := by
  rw [byte, List.getD_eq_getElem?_getD, List.getElem?_eq_getElem h, Option.getD_some]

theorem byteAt_append (h : k < d.bytes.length) : byteAt (d.bytes ++ rest) k = .ok (d.byte k) := by
  rw [byteAt, List.getElem?_append_left h, List.getElem?_eq_getElem h, d.byte_eq h]

theorem byte_zero : (d.byte 0).toNat = d.bytes.length := by
  have h := d.two_le
  rw [← d.byte_eq (by omega)]
  exact d.length_eq

theorem minLength_le : minLength (d.byte 1) ≤ d.bytes.length := by
  rw [← d.byte_eq d.two_le]
  exact d.min_le

theorem decode_append :
    DescriptorIterator.decode (d.bytes ++ rest) (d.byte 0) (d.byte 1) = some d.parsed := by
  have htwo := d.two_le
  have hmin := d.minLength_le
  have hlen : (d.bytes ++ rest).length = d.bytes.length + rest.length := List.length_append
  have hdecode := decode_eq (d.bytes ++ rest) (by omega)
  rw [d.byte_append rest (by omega), d.byte_append rest (by omega), if_pos (by omega)] at hdecode
  rw [hdecode]
  refine congrArg some (descriptorOf_congr fun k hk => d.byte_append rest ?_)
  rw [d.byte_append rest (by omega)] at hk
  omega

end Descriptor

namespace DescriptorIterator

theorem next_end (this : DescriptorIterator) (h : this.buf.length ≤ this.index) :
    next this = .ok none this := by
  rw [next, get_bind, if_pos h]
  rfl

theorem next_descriptor (before rest : List UInt8) (d : Descriptor) :
    next ⟨before ++ (d.bytes ++ rest), before.length⟩ =
      .ok (some d.parsed) ⟨before ++ (d.bytes ++ rest), (before ++ d.bytes).length⟩ := by
  have htwo := d.two_le
  have hlt : ¬before.length ≥ (before ++ (d.bytes ++ rest)).length := by
    rw [List.length_append, List.length_append]
    omega
  rw [next, get_bind, if_neg hlt]
  simp only [List.drop_left]
  rw [ofExcept_bind (d.byteAt_append rest (by omega)),
    ofExcept_bind (d.byteAt_append rest (by omega)), d.decode_append rest,
    List.length_append, ← d.byte_zero]
  rfl

/-- The run over the descriptors that are left, by induction on them. -/
theorem collect_from (before : List UInt8) (ds : List Descriptor) (hfuel : ds.length < fuel) :
    collect fuel ⟨before ++ ds.flatMap Descriptor.bytes, before.length⟩ =
      .ok (ds.map Descriptor.parsed) ⟨before ++ ds.flatMap Descriptor.bytes,
        (before ++ ds.flatMap Descriptor.bytes).length⟩ := by
  induction ds generalizing before fuel with
  | nil =>
    cases fuel with
    | zero => exact absurd hfuel (Nat.not_lt_zero _)
    | succ fuel =>
      have hend := next_end ⟨before ++ [], before.length⟩ (by rw [List.append_nil])
      rw [List.flatMap_nil, collect, bind_of_ok hend, List.append_nil]
      rfl
  | cons d ds ih =>
    cases fuel with
    | zero => exact absurd hfuel (Nat.not_lt_zero _)
    | succ fuel =>
      have hnext := next_descriptor before (ds.flatMap Descriptor.bytes) d
      have hrest := ih (before ++ d.bytes) (Nat.lt_of_succ_lt_succ hfuel)
      rw [List.append_assoc] at hrest
      rw [List.flatMap_cons, collect, bind_of_ok hnext]
      exact bind_of_ok hrest

end DescriptorIterator

theorem descriptors_round_trip (ds : List Descriptor) (hfuel : ds.length < fuel) :
    ∃ it, DescriptorIterator.collect fuel (.new (ds.flatMap Descriptor.bytes)) =
      .ok (ds.map Descriptor.parsed) it :=
  ⟨_, DescriptorIterator.collect_from [] ds hfuel⟩

/-- A configuration with a byte too many, a HID descriptor and an endpoint. -/
def keyboardDescriptors : List Descriptor :=
  [⟨[10, 2, 34, 0, 1, 1, 0, 0xa0, 50, 7], by decide, by decide, by decide⟩,
    ⟨[9, 0x21, 0x11, 1, 0, 1, 0x22, 63, 0], by decide, by decide, by decide⟩,
    ⟨[7, 5, 0x81, 3, 8, 1, 10], by decide, by decide, by decide⟩]

theorem descriptors_round_trip_keyboard : ∃ it,
    DescriptorIterator.collect 4 (.new (keyboardDescriptors.flatMap Descriptor.bytes)) =
      .ok [.config ⟨10, 2, 34, 1, 1, 0, 0xa0, 50⟩, .unknown 9 0x21,
        .endpoint ⟨7, 5, 0x81, 3, 264, 10⟩] it :=
  descriptors_round_trip keyboardDescriptors (by decide)

end Wasabi
