import CassandraDriver.Data.BigEndian
import CassandraDriver.DataType.Basic

/-!
# Values over a received buffer

The decoding half of `serialization.hpp` and the `Value` class of `value.hpp`. A `Value` points
into the buffer of a response: `data_` is a position in it and `size_` the number of bytes of
the value, negative for a null value. The buffer is a list of bytes and a position an integer,
since the code moves its pointers by sizes read from the wire, which may be negative. The C++
code reads through its pointers without checking them; a read outside the buffer is `none`
here.
-/

namespace CassandraDriver

/-- The driver's error codes that binding values and reading them return. -/
inductive CassError
  | ok
  | libNameDoesNotExist
  | libIndexOutOfBounds
  | libInvalidItemCount
  | libNullValue
  | libInvalidValueType
  | libBadParams
  deriving DecidableEq, Repr

/-- `decode_int32` at a position of a buffer. -/
def decodeInt32 (mem : List UInt8) (pos : Int) : Option Int :=
  (BigEndian.slice mem pos 4).map BigEndian.decodeInt

/-- `decode_uint16` at a position of a buffer. -/
def decodeUint16 (mem : List UInt8) (pos : Int) : Option Int :=
  (BigEndian.slice mem pos 2).map fun bs => (BigEndian.decode bs : Int)

/-- An `int` written at a position reads back there. -/
lemma decodeInt32_encodeInt (pre rest : List UInt8) {v : Int} (hlo : -2 ^ 31 ≤ v)
    (hhi : v < 2 ^ 31) : decodeInt32 (pre ++ BigEndian.encodeInt 4 v ++ rest) pre.length = some v := by
  have hslice := BigEndian.slice_append pre (BigEndian.encodeInt 4 v) rest
  rw [BigEndian.length_encodeInt] at hslice
  rw [decodeInt32, hslice, Option.map_some,
    BigEndian.decodeInt_encodeInt (w := 4) (by norm_num) hlo hhi]

/-- `decode_size`: an `int` size from protocol version 3 on, a `short` before; the position
after it and the size. -/
def decodeSize (protocolVersion : Int) (mem : List UInt8) (pos : Int) : Option (Int × Int) :=
  if protocolVersion ≥ 3 then (decodeInt32 mem pos).map fun size => (pos + 4, size)
  else (decodeUint16 mem pos).map fun size => (pos + 2, size)

/-- `Value`: the protocol version, the data type (`DataType::NIL` for a null pointer), the
number of items of a collection, tuple or user type, and where its bytes are. -/
structure Value where
  protocolVersion : Int
  dataType : DataType
  count : Int
  data : Int
  size : Int

namespace Value

/-- `Value()`; its `data_` is left uninitialised by the code, and taken as `0` here. -/
def empty : Value := ⟨0, .nil, 0, 0, -1⟩

/-- `Value(data_type)`, the null value of a type. -/
def null (dataType : DataType) : Value := ⟨0, dataType, 0, 0, -1⟩

/-- `Value(protocol_version, data_type, data, size)`. A collection with bytes starts with its
item count, which is read and skipped. The constructor calls methods of `data_type`, so a null
`DataType::ConstPtr` is dereferenced: `none`, as is a count read outside the buffer. -/
def make (mem : List UInt8) (protocolVersion : Int) (dataType : DataType) (data size : Int) :
    Option Value :=
  match dataType with
  | .nil => none
  | dt =>
    if size > 0 ∧ dt.isCollection then
      (decodeSize protocolVersion mem data).map fun (data, count) =>
        ⟨protocolVersion, dt, count, data,
          if protocolVersion ≥ 3 then size - 4 else size - 2⟩
    else
      let count : Int :=
        if dt.isTuple then dt.types.length
        else if dt.isUserType then dt.fields.length
        else 0
      some ⟨protocolVersion, dt, count, data, size⟩

/-- A collection with bytes: the count is read where the bytes start. -/
lemma make_of_isCollection {mem : List UInt8} {protocolVersion : Int} {dt : DataType}
    {data size data' count : Int} (hcoll : dt.isCollection = true) (hsize : 0 < size)
    (hcount : decodeSize protocolVersion mem data = some (data', count)) :
    make mem protocolVersion dt data size =
      some ⟨protocolVersion, dt, count, data',
        if protocolVersion ≥ 3 then size - 4 else size - 2⟩ := by
  cases dt with
  | nil => simp [DataType.isCollection, DataType.valueType] at hcoll
  | _ => simp [make, hcoll, hsize, hcount]

/-- A value of a type that is not a collection points at its bytes. -/
lemma make_of_not_isCollection {mem : List UInt8} {protocolVersion : Int} {dt : DataType}
    {data size : Int} (hnil : dt.isNil = false) (hcoll : dt.isCollection = false) :
    make mem protocolVersion dt data size =
      some ⟨protocolVersion, dt,
        if dt.isTuple then dt.types.length else if dt.isUserType then dt.fields.length else 0,
        data, size⟩ := by
  cases dt with
  | nil => simp [DataType.isNil] at hnil
  | _ => simp [make, hcoll]

lemma dataType_of_make {mem : List UInt8} {protocolVersion : Int} {dt : DataType}
    {data size : Int} {v : Value} (h : make mem protocolVersion dt data size = some v) :
    v.dataType = dt := by
  cases dt with
  | nil => simp [make] at h
  | _ =>
    simp only [make] at h
    split at h
    · obtain ⟨r, -, rfl⟩ := Option.map_eq_some_iff.1 h
      rfl
    · cases h
      rfl

/-- `Value::value_type`. -/
def valueType (v : Value) : ValueType := v.dataType.valueType

/-- `Value::is_null`. -/
def isNull (v : Value) : Bool := v.size < 0

/-- `Value::is_collection`. -/
def isCollection (v : Value) : Bool := v.dataType.isCollection

/-- `Value::primary_data_type`: the element type of a list or set, the key type of a map. -/
def primaryDataType (v : Value) : DataType :=
  if v.dataType.isCollection then v.dataType.types.headD .nil else .nil

/-- `Value::secondary_data_type`: the value type of a map. -/
def secondaryDataType (v : Value) : DataType :=
  if v.dataType.isMap then v.dataType.types.getD 1 .nil else .nil

end Value

/-- `decode_row`: the values of the columns of a row, whose types are given, and the position
after them. A negative size is a null value. -/
def decodeRow (mem : List UInt8) (protocolVersion : Int) :
    List DataType → Int → Option (List Value × Int)
  | [], buffer => some ([], buffer)
  | dataType :: dataTypes, buffer => do
    let size ← decodeInt32 mem buffer
    if size ≥ 0 then
      let value ← Value.make mem protocolVersion dataType (buffer + 4) size
      let (values, buffer) ← decodeRow mem protocolVersion dataTypes (buffer + 4 + size)
      some (value :: values, buffer)
    else
      let (values, buffer) ← decodeRow mem protocolVersion dataTypes (buffer + 4)
      some (Value.null dataType :: values, buffer)

end CassandraDriver
