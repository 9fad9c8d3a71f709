import CassandraDriver.Data.BigEndian
import CassandraDriver.Data.FixedBuffer
import CassandraDriver.Request.QueryParameters
import CassandraDriver.Value.Collection

/-!
# Statements and how they are encoded

The body of a QUERY or EXECUTE frame, as `Statement::encode_begin`, `encode_values` and
`encode_end` write it into a list of buffers (`BufferVec`):

  `<query or id><consistency><flags>[<n><value_1>...<value_n>][<result_page_size>]`
  `[<paging_state>][<serial_consistency>][<timestamp>][<keyspace>]`

A driver `Buffer` is allocated with a size and written at offsets; its writes assert that
they stay inside it. A buffer is a `FixedBuffer` here, and an assertion that fails is the
error `EncodeError.bufferOverflow`. Lengths are unbounded integers: the driver adds them up
in an `int32_t`.
-/

namespace CassandraDriver

/-! ### Protocol constants -/

/-- `CASS_INT64_MIN`, the timestamp that means "none". -/
def int64Min : Int := -2 ^ 63

/-- `Request::REQUEST_ERROR_PARAMETER_UNSET` -/
def requestErrorParameterUnset : Int := -3

/-- `supports_set_keyspace` -/
def supportsSetKeyspace (version : Int) : Bool := version ≥ 5

/-- `supports_result_metadata_id`: switched off in the driver until protocol v5 settles. -/
def supportsResultMetadataId (_version : Int) : Bool := false

/-- The `[bytes]` encodings of null and unset (`encode_with_length(CassNull)`,
`encode_with_length(CassUnset)`). -/
def encodeWithLengthNull : List UInt8 := BigEndian.encodeInt 4 (-1)
def encodeWithLengthUnset : List UInt8 := BigEndian.encodeInt 4 (-2)

/-! ### Errors -/

/-- How encoding a request stops early. -/
inductive EncodeError
  /-- A `Buffer` write whose bounds assertion fails. -/
  | bufferOverflow
  /-- `encode_values` meets an unset parameter below protocol v4. -/
  | parameterUnset (index : Nat)
  /-- `AbstractData::Element::get_buffer` on an unset element asserts. -/
  | unsetElement
  /-- `QueryRequest::encode_values_with_names` reads `elements()[index]` past the end of the
  vector. -/
  | elementOutOfRange (index : Nat)
  deriving DecidableEq, Repr

/-- The value `encode` returns for an error it reports: only an unset parameter is reported to
the callback and returned as a code; the others are failed assertions or reads out of bounds. -/
def EncodeError.code : EncodeError → Option Int
  | .parameterUnset _ => some requestErrorParameterUnset
  | _ => none

/-- The message `encode_values` reports to the callback with `CASS_ERROR_LIB_PARAMETER_UNSET`. -/
def EncodeError.message : EncodeError → Option String
  | .parameterUnset i => some ("Query parameter at index " ++ toString i ++ " was not set")
  | _ => none

/-! ### Driver buffers -/

namespace Buffer

/-! Each method asserts that its bytes fit from the offset on, writes them, and returns the
offset after them: one `FixedBuffer.writeOr` with the method's encoding. -/

/-- `Buffer::encode_byte`: the value is an `uint8_t`. -/
def encodeByte (buf : FixedBuffer) (offset value : Nat) : Except EncodeError (FixedBuffer × Nat) :=
  FixedBuffer.writeOr .bufferOverflow [UInt8.ofNat value] (buf, offset)

/-- `Buffer::encode_uint16` -/
def encodeUint16 (buf : FixedBuffer) (offset value : Nat) : Except EncodeError (FixedBuffer × Nat) :=
  FixedBuffer.writeOr .bufferOverflow (BigEndian.encode 2 value) (buf, offset)

/-- `Buffer::encode_int32` -/
def encodeInt32 (buf : FixedBuffer) (offset : Nat) (value : Int) :
    Except EncodeError (FixedBuffer × Nat) :=
  FixedBuffer.writeOr .bufferOverflow (BigEndian.encodeInt 4 value) (buf, offset)

/-- `Buffer::encode_int64` -/
def encodeInt64 (buf : FixedBuffer) (offset : Nat) (value : Int) :
    Except EncodeError (FixedBuffer × Nat) :=
  FixedBuffer.writeOr .bufferOverflow (BigEndian.encodeInt 8 value) (buf, offset)

/-- `Buffer::copy`: `memcpy` of the first `size` bytes of `value`. -/
def copy (buf : FixedBuffer) (offset : Nat) (value : List UInt8) (size : Nat) :
    Except EncodeError (FixedBuffer × Nat) :=
  FixedBuffer.writeOr .bufferOverflow (value.take size) (buf, offset)

/-- `Buffer::encode_bytes`: the size is an `int32_t`, and nothing is copied unless it is
positive. -/
def encodeBytes (buf : FixedBuffer) (offset : Nat) (value : List UInt8) (size : Int) :
    Except EncodeError (FixedBuffer × Nat) := do
  let (buf, pos) ← encodeInt32 buf offset size
  if size > 0 then copy buf pos value size.toNat else pure (buf, pos)

/-- `Buffer::encode_string`: the size is an `uint16_t`. -/
def encodeString (buf : FixedBuffer) (offset : Nat) (value : List UInt8) (size : Nat) :
    Except EncodeError (FixedBuffer × Nat) := do
  let (buf, pos) ← encodeUint16 buf offset size
  copy buf pos value size

end Buffer

/-- The implicit conversion of a `size_t` to `uint16_t`. -/
def toUint16 (n : Nat) : Nat := n % 2 ^ 16

/-- The implicit conversion of a `size_t` to `int32_t`. -/
def toInt32 (n : Nat) : Int := BigEndian.toInt 4 (n % 2 ^ 32)

/-! ### Requests -/

/-- The opcodes a statement is sent with. -/
inductive Opcode
  | query
  | execute
  deriving DecidableEq, Repr

/-- What the encoders read from the `RequestCallback`: the consistencies and timestamp it
settled on for this request, whether the result metadata can be skipped, and the result
metadata id of the prepared statement when it is known. -/
structure RequestCallback where
  consistency : Nat
  serialConsistency : Nat
  timestamp : Int
  skipMetadata : Bool
  preparedMetadataEntry : Option (List UInt8)

/-- `AbstractData::Element`: a bound parameter. -/
inductive Element
  | unset
  | nul
  | buffer (buf : List UInt8)
  | collection (collection : Collection)

namespace Element

/-- `is_unset`: never set, or set to an empty buffer. -/
def isUnset : Element → Bool
  | .unset => true
  | .buffer buf => buf.length == 0
  | _ => false

/-- `get_buffer`: the `[bytes]` encoding of the parameter; it asserts that the element is
set. -/
def getBuffer (version : Int) : Element → Except EncodeError (List UInt8)
  | .collection c => .ok (c.encodeWithLength version)
  | .buffer buf => .ok buf
  | .nul => .ok encodeWithLengthNull
  | .unset => .error .unsetElement

end Element

/-- A `Statement`: the parts of a simple or bound statement that its encoding reads. The
field `hasNamesForValues` stands for `flags_`, which both constructors set to 0 and which only
`set_has_names_for_values` changes, in its `CASS_QUERY_FLAG_NAMES_FOR_VALUES` bit. -/
structure Statement where
  opcode : Opcode
  /-- `query_or_id_`: the `[long string]` query or the `[short bytes]` prepared id. -/
  queryOrId : List UInt8
  hasNamesForValues : Bool
  pageSize : Int
  pagingState : List UInt8
  keyspace : List UInt8
  elements : List Element

namespace Statement

/-- `Statement(query, query_length, values_count)` -/
def ofQuery (query : List UInt8) (valuesCount : Nat) : Statement where
  opcode := .query
  queryOrId := BigEndian.encodeInt 4 (toInt32 query.length) ++ query
  hasNamesForValues := false
  pageSize := -1
  pagingState := []
  keyspace := []
  elements := List.replicate valuesCount .unset

/-- `flags_` -/
def flags (s : Statement) : Nat := if s.hasNamesForValues then queryFlagNamesForValues else 0

/-- `with_keyspace`: bound statements use the keyspace they were prepared in. -/
def withKeyspace (s : Statement) (version : Int) : Bool :=
  supportsSetKeyspace version && s.opcode != .execute && !s.keyspace.isEmpty

/-- `encode_query_or_id` -/
def encodeQueryOrId (s : Statement) (bufs : List FixedBuffer) : Int × List FixedBuffer :=
  (s.queryOrId.length, bufs ++ [FixedBuffer.ofBytes s.queryOrId])

/-- The flags `encode_begin` writes. -/
def queryFlags (s : Statement) (version : Int) (elementCount : Nat)
    (callback : RequestCallback) : Nat :=
  let flags := s.flags
  let flags := if callback.skipMetadata then flags ||| queryFlagSkipMetadata else flags
  let flags := if elementCount > 0 then flags ||| queryFlagValues else flags
  let flags := if s.pageSize > 0 then flags ||| queryFlagPageSize else flags
  let flags := if !s.pagingState.isEmpty then flags ||| queryFlagPagingState else flags
  let flags := if callback.serialConsistency ≠ 0 then flags ||| queryFlagSerialConsistency
    else flags
  let flags := if version ≥ 3 ∧ callback.timestamp ≠ int64Min then
    flags ||| queryFlagDefaultTimestamp else flags
  if s.withKeyspace version then flags ||| queryFlagWithKeyspace else flags

/-- The size of the buffer `encode_begin` allocates. -/
def queryParamsBufSize (version : Int) (elementCount : Nat) : Nat :=
  2 + (if version ≥ 5 then 4 else 1) + (if elementCount > 0 then 2 else 0)

/-- `encode_begin`: `<consistency><flags>[<n>]`. The element count is an `uint16_t`. -/
def encodeBegin (s : Statement) (version : Int) (elementCount : Nat) (callback : RequestCallback)
    (bufs : List FixedBuffer) : Except EncodeError (Int × List FixedBuffer) := do
  let flags := s.queryFlags version elementCount callback
  let size := queryParamsBufSize version elementCount
  let (buf, pos) ← Buffer.encodeUint16 (FixedBuffer.alloc size) 0 callback.consistency
  let (buf, pos) ← (if version ≥ 5 then Buffer.encodeInt32 buf pos flags
    else Buffer.encodeByte buf pos flags)
  let buf ← (if elementCount > 0 then (·.1) <$> Buffer.encodeUint16 buf pos elementCount
    else pure buf)
  pure (size, bufs ++ [buf])

/-- The loop of `encode_values` from element `index` on, with the length so far. -/
def encodeValuesFrom (version : Int) :
    Nat → List Element → Int → List FixedBuffer → Except EncodeError (Int × List FixedBuffer)
  | _, [], length, bufs => pure (length, bufs)
  | index, element :: rest, length, bufs =>
    if !element.isUnset then do
      let buf ← element.getBuffer version
      encodeValuesFrom version (index + 1) rest (length + buf.length)
        (bufs ++ [FixedBuffer.ofBytes buf])
    else if version ≥ 4 then
      encodeValuesFrom version (index + 1) rest (length + encodeWithLengthUnset.length)
        (bufs ++ [FixedBuffer.ofBytes encodeWithLengthUnset])
    else
      -- reported to the callback, and returned as `REQUEST_ERROR_PARAMETER_UNSET`
      .error (.parameterUnset index)

/-- `encode_values`: `<value_1>...<value_n>`, each a `[bytes]`. -/
def encodeValues (s : Statement) (version : Int) (bufs : List FixedBuffer) :
    Except EncodeError (Int × List FixedBuffer) :=
  encodeValuesFrom version 0 s.elements 0 bufs

/-- The size of the buffer `encode_end` allocates, `paging_buf_size`. -/
def pagingBufSize (s : Statement) (version : Int) (callback : RequestCallback) : Nat :=
  (if s.pageSize > 0 then 4 else 0) +
  (if !s.pagingState.isEmpty then 4 + s.pagingState.length else 0) +
  (if callback.serialConsistency ≠ 0 then 2 else 0) +
  (if version ≥ 3 ∧ callback.timestamp ≠ int64Min then 8 else 0) +
  (if s.withKeyspace version then 2 + s.keyspace.length else 0)

/-- The writes of `encode_end` into its buffer, from offset 0:
`[<result_page_size>][<paging_state>][<serial_consistency>][<timestamp>][<keyspace>]`. The page
size is written when it is not negative, while `paging_buf_size` counts it only when it is
positive. -/
def encodeEndWrites (s : Statement) (version : Int) (callback : RequestCallback)
    (buf : FixedBuffer) : Except EncodeError FixedBuffer := do
  let (buf, pos) ← (if s.pageSize ≥ 0 then Buffer.encodeInt32 buf 0 s.pageSize
    else pure (buf, 0))
  let (buf, pos) ← (if !s.pagingState.isEmpty then
      Buffer.encodeBytes buf pos s.pagingState (toInt32 s.pagingState.length)
    else pure (buf, pos))
  let (buf, pos) ← (if callback.serialConsistency ≠ 0 then
      Buffer.encodeUint16 buf pos callback.serialConsistency
    else pure (buf, pos))
  let (buf, pos) ← (if version ≥ 3 ∧ callback.timestamp ≠ int64Min then
      Buffer.encodeInt64 buf pos callback.timestamp
    else pure (buf, pos))
  let (buf, _) ← (if s.withKeyspace version then
      Buffer.encodeString buf pos s.keyspace (toUint16 s.keyspace.length)
    else pure (buf, pos))
  pure buf

/-- `encode_end`: a buffer of `paging_buf_size` bytes when that is positive, written by
`encodeEndWrites`. -/
def encodeEnd (s : Statement) (version : Int) (callback : RequestCallback)
    (bufs : List FixedBuffer) : Except EncodeError (Int × List FixedBuffer) := do
  let size := s.pagingBufSize version callback
  if size > 0 then
    let buf ← s.encodeEndWrites version callback (FixedBuffer.alloc size)
    pure (size, bufs ++ [buf])
  else pure (0, bufs)

/-- `encode_v1`: `<query or id>[<n><value_1>...<value_n>]<consistency>`, values for bound
statements only. -/
def encodeV1 (s : Statement) (callback : RequestCallback) (bufs : List FixedBuffer) :
    Except EncodeError (Int × List FixedBuffer) := do
  let (length, bufs) := s.encodeQueryOrId bufs
  let (length, bufs) ← (if s.opcode = .execute then do
      let (buf, _) ← Buffer.encodeUint16 (FixedBuffer.alloc 2) 0 (toUint16 s.elements.length)
      let (result, bufs) ← s.encodeValues 1 (bufs ++ [buf])
      pure (length + 2 + result, bufs)
    else pure (length, bufs))
  let (buf, _) ← Buffer.encodeUint16 (FixedBuffer.alloc 2) 0 callback.consistency
  pure (length + 2, bufs ++ [buf])

end Statement

/-- `ExecuteRequest::encode` -/
def ExecuteRequest.encode (s : Statement) (version : Int) (callback : RequestCallback)
    (bufs : List FixedBuffer) : Except EncodeError (Int × List FixedBuffer) := do
  if version = 1 then s.encodeV1 callback bufs
  else
    let (length, bufs) := s.encodeQueryOrId bufs
    let (length, bufs) ← (if supportsResultMetadataId version then
        match callback.preparedMetadataEntry with
        | some resultMetadataId =>
          pure (length + resultMetadataId.length, bufs ++ [FixedBuffer.ofBytes resultMetadataId])
        | none => do
          let (buf, _) ← Buffer.encodeUint16 (FixedBuffer.alloc 2) 0 0
          pure (length + 2, bufs ++ [buf])
      else pure (length, bufs))
    let (begin, bufs) ← s.encodeBegin version (toUint16 s.elements.length) callback bufs
    let (result, bufs) ← s.encodeValues version bufs
    let (finish, bufs) ← s.encodeEnd version callback bufs
    pure (length + begin + result + finish, bufs)

end CassandraDriver
