import CassandraDriver.Value.Duration

/-!
# Reading a value

The getters of `value.cpp`. After the null check and the type check, a getter of a fixed-width
type decodes the first bytes of the value and returns `CASS_OK`, whatever the size of the value:
the size is the `[bytes]` length the server sent, and `decode_row` never compares it with the
width of the column's type. `cass_value_get_inet` copies `size` bytes into the sixteen of
`CassInet::address`, and `cass_value_get_decimal` subtracts four from the size as a `size_t`.

A getter stays inside a value when what it returns depends only on the value's own bytes: two
buffers that agree on them give the same result. The fixed-width getters do when the size is
their width, and never when it is shorter; `cass_value_get_duration` reads the first byte of each
vint before it checks the end.
-/

namespace CassandraDriver

/-- `is_int64_type` -/
def ValueType.isInt64Type (vt : ValueType) : Bool :=
  vt == .bigint || vt == .counter || vt == .timestamp || vt == .time

/-- `is_uuid_type` -/
def ValueType.isUuidType (vt : ValueType) : Bool :=
  vt == .timeuuid || vt == .uuid

/-- `CassUuid` -/
structure CassUuid where
  timeAndVersion : Nat
  clockSeqAndNode : Nat
  deriving DecidableEq, Repr

/-- `decode_uuid`: the time fields are read as big-endian groups of four, two and two bytes
placed from the low bits up, the clock and node as one big-endian group of eight. -/
def decodeUuid (bytes : List UInt8) : CassUuid :=
  ⟨BigEndian.decode (bytes.take 4) + BigEndian.decode ((bytes.drop 4).take 2) * 2 ^ 32 +
      BigEndian.decode ((bytes.drop 6).take 2) * 2 ^ 48,
    BigEndian.decode ((bytes.drop 8).take 8)⟩

/-- `CassInet`: the bytes the getter writes into `address`, and `address_length`. -/
structure CassInet where
  address : List UInt8
  addressLength : UInt8
  deriving DecidableEq, Repr

namespace Value

/-- The getters of a fixed-width type: the null check, the check of the value type, and the
first `width` bytes of the value decoded. -/
def getFixed {β : Type} (width : Nat) (accepts : ValueType → Bool) (decode : List UInt8 → β)
    (mem : List UInt8) (value : Value) : Option (Except CassError β) :=
  if value.isNull then some (.error .libNullValue)
  else if !accepts value.valueType then some (.error .libInvalidValueType)
  else (BigEndian.slice mem value.data width).map fun bytes => .ok (decode bytes)

/-- `cass_value_get_int8` -/
def getInt8 (mem : List UInt8) (value : Value) : Option (Except CassError Int) :=
  getFixed 1 (· == .tinyInt) BigEndian.decodeInt mem value

/-- `cass_value_get_int16` -/
def getInt16 (mem : List UInt8) (value : Value) : Option (Except CassError Int) :=
  getFixed 2 (· == .smallInt) BigEndian.decodeInt mem value

/-- `cass_value_get_int32` -/
def getInt32 (mem : List UInt8) (value : Value) : Option (Except CassError Int) :=
  getFixed 4 (· == .int) BigEndian.decodeInt mem value

/-- `cass_value_get_uint32` -/
def getUint32 (mem : List UInt8) (value : Value) : Option (Except CassError Nat) :=
  getFixed 4 (· == .date) BigEndian.decode mem value

/-- `cass_value_get_int64` -/
def getInt64 (mem : List UInt8) (value : Value) : Option (Except CassError Int) :=
  getFixed 8 ValueType.isInt64Type BigEndian.decodeInt mem value

/-- `cass_value_get_float`: the bits of the float, as the `int32_t` that `decode_float` reads. -/
def getFloat (mem : List UInt8) (value : Value) : Option (Except CassError Int) :=
  getFixed 4 (· == .float) BigEndian.decodeInt mem value

/-- `cass_value_get_double`: the bits of the double, as the `int64_t` that `decode_double`
reads. -/
def getDouble (mem : List UInt8) (value : Value) : Option (Except CassError Int) :=
  getFixed 8 (· == .double) BigEndian.decodeInt mem value

/-- `cass_value_get_bool`: the byte, cast to `cass_bool_t`. -/
def getBool (mem : List UInt8) (value : Value) : Option (Except CassError Nat) :=
  getFixed 1 (· == .boolean) BigEndian.decode mem value

/-- `cass_value_get_uuid` -/
def getUuid (mem : List UInt8) (value : Value) : Option (Except CassError CassUuid) :=
  getFixed 16 ValueType.isUuidType decodeUuid mem value

/-- `cass_value_get_inet`: `address_length` is the size, and `size` bytes are copied. -/
def getInet (mem : List UInt8) (value : Value) : Option (Except CassError CassInet) :=
  if value.isNull then some (.error .libNullValue)
  else if value.valueType ≠ .inet then some (.error .libInvalidValueType)
  else (BigEndian.slice mem value.data value.size.toNat).map fun bytes =>
    .ok ⟨bytes, UInt8.ofNat value.size.toNat⟩

/-- `cass_value_get_decimal`: the scale from the first four bytes, and the varint after them, its
position and its `size - 4` bytes counted in `size_t`. -/
def getDecimal (mem : List UInt8) (value : Value) : Option (Except CassError (Int × Nat × Int)) :=
  if value.isNull then some (.error .libNullValue)
  else if value.valueType ≠ .decimal then some (.error .libInvalidValueType)
  else (decodeInt32 mem value.data).map fun scale =>
    .ok (value.data + 4, ((value.size - 4) % 2 ^ 64).toNat, scale)

/-- A getter stays inside a value when two buffers that agree on the value's bytes give the
same result. -/
def StaysInside {γ : Type} (get : List UInt8 → Value → γ) (value : Value) : Prop :=
  ∀ mem mem', BigEndian.slice mem value.data value.size.toNat =
    BigEndian.slice mem' value.data value.size.toNat → get mem value = get mem' value

lemma isNull_eq_false {value : Value} (hsize : 0 ≤ value.size) : value.isNull = false := by
  simp [isNull, hsize]

/-! ### The fixed-width getters -/

section Fixed

variable {β : Type} {width : Nat} {accepts : ValueType → Bool} {decode : List UInt8 → β}

/-- A fixed-width getter returns the decoded bytes whenever they lie in the buffer, whatever the
size of the value. -/
lemma getFixed_of_slice {mem bytes : List UInt8} {value : Value} (hsize : 0 ≤ value.size)
    (haccepts : accepts value.valueType = true)
    (hslice : BigEndian.slice mem value.data width = some bytes) :
    getFixed width accepts decode mem value = some (.ok (decode bytes)) := by
  simp [getFixed, isNull_eq_false hsize, haccepts, hslice]

/-- A value of the getter's width keeps it inside. -/
theorem getFixed_staysInside {value : Value} (hsize : value.size = width) :
    StaysInside (getFixed width accepts decode) value := by
  intro mem mem' hagree
  have hwidth : value.size.toNat = width := by omega
  rw [hwidth] at hagree
  simp only [getFixed, hagree]

/-- A value shorter than the getter's width never keeps it inside: two buffers that agree on the
value's bytes, and differ in the last byte the getter reads, give different results. -/
theorem getFixed_not_staysInside
    (hdecode : decode (List.replicate width 0) ≠ decode (List.replicate (width - 1) 0 ++ [1]))
    {value : Value} (haccepts : accepts value.valueType = true) (hdata : 0 ≤ value.data)
    (hsize : 0 ≤ value.size) (hshort : value.size < width) :
    ¬StaysInside (getFixed width accepts decode) value := by
  intro hinside
  obtain ⟨d, hd⟩ : ∃ d : Nat, value.data = d := ⟨value.data.toNat, by omega⟩
  obtain ⟨s, hs⟩ : ∃ s : Nat, value.size = s := ⟨value.size.toNat, by omega⟩
  -- both buffers hold zeros up to the last byte the getter reads, which is 1 in the second
  let pre := List.replicate d (0 : UInt8)
  let mem := pre ++ List.replicate s 0 ++ List.replicate (width - s) 0
  let mem' := pre ++ List.replicate s 0 ++ (List.replicate (width - 1 - s) 0 ++ [1])
  have hpre : (pre.length : Int) = value.data := by simp [pre, hd]
  have hagree : BigEndian.slice mem value.data value.size.toNat =
      BigEndian.slice mem' value.data value.size.toNat := by
    have hlen : value.size.toNat = (List.replicate s (0 : UInt8)).length := by simp [hs]
    rw [← hpre, hlen, BigEndian.slice_append, BigEndian.slice_append]
  have hfull : mem = pre ++ List.replicate width 0 ++ [] := by
    have hsplit : List.replicate s (0 : UInt8) ++ List.replicate (width - s) 0 =
        List.replicate width 0 := by
      rw [List.replicate_append_replicate]
      congr 1
      omega
    rw [List.append_nil, ← hsplit, ← List.append_assoc]
  have hfull' : mem' = pre ++ (List.replicate (width - 1) 0 ++ [1]) ++ [] := by
    have hsplit : List.replicate s (0 : UInt8) ++ List.replicate (width - 1 - s) 0 =
        List.replicate (width - 1) 0 := by
      rw [List.replicate_append_replicate]
      congr 1
      omega
    rw [List.append_nil, ← hsplit]
    simp only [mem', List.append_assoc]
  have hread : BigEndian.slice mem value.data width = some (List.replicate width 0) := by
    have hslice := BigEndian.slice_append pre (List.replicate width 0) []
    rwa [hpre, List.length_replicate, ← hfull] at hslice
  have hread' : BigEndian.slice mem' value.data width =
      some (List.replicate (width - 1) 0 ++ [1]) := by
    have hlen : (List.replicate (width - 1) (0 : UInt8) ++ [1]).length = width := by
      simp only [List.length_append, List.length_replicate, List.length_singleton]
      omega
    have hslice := BigEndian.slice_append pre (List.replicate (width - 1) 0 ++ [1]) []
    rwa [hpre, hlen, ← hfull'] at hslice
  have hget := hinside mem mem' hagree
  rw [getFixed_of_slice hsize haccepts hread, getFixed_of_slice hsize haccepts hread'] at hget
  exact hdecode (Except.ok.inj (Option.some.inj hget))

/-- A row of two `int` columns whose first value is empty: `cass_value_get_int32` on it returns
`CASS_OK` with the `[bytes]` length of the second column, read from outside the value. -/
theorem getInt32_emptyValue :
    let empty : Value := ⟨4, .primitive .int, 0, 4, 0⟩
    let mem : List UInt8 := [0, 0, 0, 0, 0, 0, 0, 4, 0, 0, 0, 7]
    decodeRow mem 4 [.primitive .int, .primitive .int] 0 =
        some ([empty, ⟨4, .primitive .int, 0, 8, 4⟩], 12) ∧
      getInt32 mem empty = some (.ok 4) ∧ ¬StaysInside getInt32 empty := by
  intro empty mem
  have hsize0 : decodeInt32 mem 0 = some 0 := by
    simp [mem, decodeInt32, BigEndian.slice, BigEndian.decodeInt, BigEndian.toInt, BigEndian.decode]
  have hsize4 : decodeInt32 mem 4 = some 4 := by
    simp [mem, decodeInt32, BigEndian.slice, BigEndian.decodeInt, BigEndian.toInt, BigEndian.decode]
  refine ⟨?_, ?_, ?_⟩
  · simp [decodeRow, hsize0, hsize4, make, empty, DataType.isCollection, DataType.isTuple,
      DataType.isUserType, DataType.valueType]
  · have hslice : BigEndian.slice mem empty.data 4 = some [0, 0, 0, 4] := by
      simp [BigEndian.slice, mem, empty]
    rw [getInt32, getFixed_of_slice (by decide) rfl hslice]
    simp [BigEndian.decodeInt, BigEndian.toInt, BigEndian.decode]
  · exact getFixed_not_staysInside (by decide +kernel) rfl (by decide) (by decide) (by decide)

end Fixed

/-! ### Addresses, decimals and durations -/

/-- `cass_value_get_inet` writes as many bytes as the value has into the sixteen of `address`. -/
theorem length_address_of_getInet {mem : List UInt8} {value : Value} {inet : CassInet}
    (h : getInet mem value = some (.ok inet)) : inet.address.length = value.size.toNat := by
  unfold getInet at h
  split_ifs at h
  · cases h
  · cases h
  · obtain ⟨bytes, hslice, hok⟩ := Option.map_eq_some_iff.1 h
    cases hok
    exact BigEndian.length_of_slice hslice

/-- On a value shorter than four bytes `cass_value_get_decimal` still reads a scale, and the
size of the varint wraps around. -/
theorem getDecimal_of_short {mem : List UInt8} {value : Value} {scale : Int}
    (hsize : 0 ≤ value.size) (hshort : value.size < 4) (htype : value.valueType = .decimal)
    (hscale : decodeInt32 mem value.data = some scale) :
    getDecimal mem value = some (.ok (value.data + 4, 2 ^ 64 - (4 - value.size.toNat), scale)) := by
  simp only [getDecimal, isNull_eq_false hsize, htype, hscale, Bool.false_eq_true, if_false,
    ne_eq, not_true_eq_false, Option.map_some, Option.some.injEq, Except.ok.injEq, Prod.mk.injEq,
    true_and, and_true]
  omega

/-- A vint whose first byte is zero is zero, one byte long. -/
lemma decodeVint_of_zero {mem : List UInt8} {pos end_ : Int} (h : readByte mem pos = some 0) :
    decodeVint mem pos end_ = some (some (0, pos + 1)) := by
  simp [decodeVint, h]

/-- On an empty value `cass_value_get_duration` reads the bytes after it: at the end of the
buffer it reads past it, and before three zero bytes it reads them as three vints and fails. -/
theorem getDuration_not_staysInside {value : Value} (htype : value.valueType = .duration)
    (hdata : 0 ≤ value.data) (hsize : value.size = 0) : ¬StaysInside getDuration value := by
  intro hinside
  obtain ⟨d, hd⟩ : ∃ d : Nat, value.data = d := ⟨value.data.toNat, by omega⟩
  let mem := List.replicate d (0 : UInt8)
  let mem' := mem ++ [0, 0, 0]
  have hlen : (mem.length : Int) = value.data := by simp [mem, hd]
  have hagree : BigEndian.slice mem value.data value.size.toNat =
      BigEndian.slice mem' value.data value.size.toNat := by
    simp [BigEndian.slice, hsize, mem', mem, hd]
  have hnull : value.isNull = false := isNull_eq_false (by omega)
  -- the first vint starts at the end of the first buffer
  have hnone : getDuration mem value = none := by
    have hread : readByte mem value.data = none := by
      rw [readByte, BigEndian.slice_eq_none (by omega)]
      rfl
    simp [getDuration, hnull, htype, decodeVint, hread]
  -- and on three zero bytes in the second
  have hzero : ∀ i : Nat, i < 3 → readByte mem' (value.data + i) = some 0 := by
    intro i hi
    have hsplit : mem' = (mem ++ List.replicate i 0) ++ 0 :: List.replicate (2 - i) 0 := by
      interval_cases i <;> simp [mem']
    have hpos : value.data + i = ((mem ++ List.replicate i (0 : UInt8)).length : Int) := by
      simp [hlen]
    rw [hsplit, hpos]
    exact readByte_append (mem ++ List.replicate i 0) (List.replicate (2 - i) 0) 0
  have hbad : getDuration mem' value = some (.error .libBadParams) := by
    have h0 : readByte mem' value.data = some 0 := by simpa using hzero 0 (by norm_num)
    have h1 : readByte mem' (value.data + 1) = some 0 := by simpa using hzero 1 (by norm_num)
    have h2 : readByte mem' (value.data + 1 + 1) = some 0 := by
      rw [Int.add_assoc]
      simpa using hzero 2 (by norm_num)
    simp [getDuration, hnull, htype, hsize, decodeVint_of_zero h0, decodeVint_of_zero h1,
      decodeVint_of_zero h2]
    omega
  have hget := hinside mem mem' hagree
  rw [hnone, hbad] at hget
  cases hget

end Value

end CassandraDriver
