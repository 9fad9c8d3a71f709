import Mathlib
import CassandraDriver.Value.Iterators
import CassandraDriver.Request.Statement

/-!
# Decoding a RESULT body

`ResultResponse::decode` reads a RESULT body of `size` bytes: its kind, then for rows the
metadata (flags, column count, paging state, table spec and, per column, the name and the
`[option]` tree of the type, which `DataTypeDecoder` reads recursively), the row count, and the
first row. `ResultIterator` decodes the other rows one by one with `decode_row`.

None of these readers compares a position with `size`: each advances a pointer by the sizes and
counts it reads from the body itself. A read outside the buffer is undefined behaviour; here it is
`none`, as is a null type a value is built with. A `[string]` is read as a `StringRef` to its
bytes, which are read only where the code copies them.

* Over the protocol's layout of a rows body, the decoder and a pass of the iterator give back the
  paging state, the names and types of the columns, and every cell (`decode_encodeRows`), for every
  protocol version, with the metadata in the body or supplied by `set_metadata`. Each reader has
  its own lemma over bytes laid out at an offset (`BigEndian.BytesAt`); the `[option]` tree of a
  type reads back by mutual induction on it (`OptionType.decode_encode`).
* `supports_result_metadata_id` is false, so the `new_metadata_id` that a v5 body flagged
  `METADATA_CHANGED` carries is not read, and everything after it is read shifted
  (`decode_metadataChanged`).
* `decode_row` never checks a cell's size against the body: the cells of a decoded row lie between
  its start and its end (`decodeRow_span`), and nothing else bounds them; a body that ends right
  after a cell's size decodes to a row whose cell lies past the end (`decode_cellPastBody`).
-/

namespace CassandraDriver

/-! ### Reading fields of the body -/

/-- `decode_uint16` at a position: the position after it and the value. -/
def decodeUint16At (mem : List UInt8) (pos : Int) : Option (Int × Nat) :=
  (decodeUint16 mem pos).map fun value => (pos + 2, value.toNat)

/-- A `StringRef` into the body: where its bytes start and how many there are. -/
structure StringRef where
  data : Int
  size : Nat
  deriving DecidableEq, Repr

/-- `StringRef::to_string`: the bytes, read from the body. -/
def StringRef.toBytes (mem : List UInt8) (s : StringRef) : Option (List UInt8) :=
  BigEndian.slice mem s.data s.size

/-- `decode_string`: a `[string]` as a `StringRef`; its bytes are not read. -/
def decodeStringAt (mem : List UInt8) (pos : Int) : Option (Int × StringRef) := do
  let (pos, size) ← decodeUint16At mem pos
  pure (pos + size, ⟨pos, size⟩)

/-- `decode_bytes`: a `[bytes]` as a `StringRef`, `NULL` (`none`) for a negative size. -/
def decodeBytesAt (mem : List UInt8) (pos : Int) : Option (Int × Option StringRef) := do
  let (pos, size) ← decodeInt32At mem pos
  if size < 0 then pure (pos, none) else pure (pos + size, some ⟨pos, size.toNat⟩)

/-- The bytes of a `std::string`, one `char` each. -/
def latin1 (bytes : List UInt8) : String := String.ofList (bytes.map fun b => Char.ofNat b.toNat)

/-- `flags & flag` on an `int32_t`. -/
def hasFlag (flags : Int) (flag : Nat) : Bool := (flags % 2 ^ 32).toNat &&& flag ≠ 0

/-- `CASS_RESULT_FLAG_GLOBAL_TABLESPEC` -/
def resultFlagGlobalTablespec : Nat := 0x00000001

/-- `CASS_RESULT_FLAG_HAS_MORE_PAGES` -/
def resultFlagHasMorePages : Nat := 0x00000002

/-- `CASS_RESULT_FLAG_NO_METADATA` -/
def resultFlagNoMetadata : Nat := 0x00000004

/-- `CASS_RESULT_FLAG_METADATA_CHANGED` -/
def resultFlagMetadataChanged : Nat := 0x00000008

/-! ### `DataTypeDecoder` -/

namespace DataTypeDecoder

/-- The value of each `CassValueType`, its id on the wire. -/
def valueTypeId : ValueType → Nat
  | .custom => 0x0000 | .ascii => 0x0001 | .bigint => 0x0002 | .blob => 0x0003
  | .boolean => 0x0004 | .counter => 0x0005 | .decimal => 0x0006 | .double => 0x0007
  | .float => 0x0008 | .int => 0x0009 | .text => 0x000A | .timestamp => 0x000B
  | .uuid => 0x000C | .varchar => 0x000D | .varint => 0x000E | .timeuuid => 0x000F
  | .inet => 0x0010 | .date => 0x0011 | .time => 0x0012 | .smallInt => 0x0013
  | .tinyInt => 0x0014 | .duration => 0x0015 | .list => 0x0020 | .map => 0x0021
  | .set => 0x0022 | .udt => 0x0030 | .tuple => 0x0031 | .json => 0x0080
  | .unknown => 0xFFFF

/-- `CASS_VALUE_TYPE_LAST_ENTRY`, one past the last id of the enumeration. -/
def valueTypeLastEntry : Nat := 0x0081

/-- `SimpleDataTypeCache::by_value_type` on an id read from the body: `DataType::NIL` for the
unknown type, the composite types and the ids from `CASS_VALUE_TYPE_LAST_ENTRY` on. An id below
that names no `CassValueType` still gets a plain `DataType`; its value type is `unknown` here. -/
def byValueTypeId (id : Nat) : DataType :=
  if id ≥ valueTypeLastEntry then .nil
  else match ValueType.mapping.find? (fun r => valueTypeId r.1 = id) with
    | some r => (DataType.byValueType r.1).getD .nil
    | none => .primitive .unknown

/-- `decode_custom`: the class name, read; `SimpleDataTypeCache::by_class` maps the class of a
simple type to that type, any other name is a `CustomType`. -/
def decodeCustom (mem : List UInt8) (pos : Int) : Option (Int × DataType) := do
  let (pos, className) ← decodeStringAt mem pos
  let className ← className.toBytes mem
  match DataType.byValueType (ValueType.byClass (className.map fun b => Char.ofNat b.toNat)) with
  | some type => pure (pos, type)
  | none => pure (pos, .custom (latin1 className))

/-- The loop of `decode_tuple`: `n` types in a row. -/
def decodeTypes (decode : Int → Option (Int × DataType)) : Nat → Int → Option (Int × List DataType)
  | 0, pos => some (pos, [])
  | n + 1, pos => do
    let (pos, type) ← decode pos
    let (pos, types) ← decodeTypes decode n pos
    pure (pos, type :: types)

/-- The loop of `decode_user_type`: `n` fields, each a name and a type. -/
def decodeFields (mem : List UInt8) (decode : Int → Option (Int × DataType)) :
    Nat → Int → Option (Int × List (String × DataType))
  | 0, pos => some (pos, [])
  | n + 1, pos => do
    let (pos, name) ← decodeStringAt mem pos
    let name ← name.toBytes mem
    let (pos, type) ← decode pos
    let (pos, fields) ← decodeFields mem decode n pos
    pure (pos, (latin1 name, type) :: fields)

/-- `DataTypeDecoder::decode` from `pos`: the position after the type and the type. The code
recurses without bound; `fuel` bounds the depth of the tree, and each level reads two bytes. -/
def decode (mem : List UInt8) : Nat → Int → Option (Int × DataType)
  | 0, _ => none
  | fuel + 1, pos => do
    let (pos, valueType) ← decodeUint16At mem pos
    if valueType = valueTypeId .custom then decodeCustom mem pos
    else if valueType = valueTypeId .list ∨ valueType = valueTypeId .set then
      let (pos, type) ← decode mem fuel pos
      pure (pos, .collection (if valueType = valueTypeId .list then .list else .set) [type] false)
    else if valueType = valueTypeId .map then
      let (pos, key) ← decode mem fuel pos
      let (pos, value) ← decode mem fuel pos
      pure (pos, .collection .map [key, value] false)
    else if valueType = valueTypeId .udt then
      let (pos, keyspace) ← decodeStringAt mem pos
      let (pos, typeName) ← decodeStringAt mem pos
      let (pos, n) ← decodeUint16At mem pos
      let (pos, fields) ← decodeFields mem (decode mem fuel) n pos
      let keyspace ← keyspace.toBytes mem
      let typeName ← typeName.toBytes mem
      pure (pos, .userType (latin1 keyspace) (latin1 typeName) fields false)
    else if valueType = valueTypeId .tuple then
      let (pos, n) ← decodeUint16At mem pos
      let (pos, types) ← decodeTypes (decode mem fuel) n pos
      pure (pos, .tuple types false)
    else pure (pos, byValueTypeId valueType)

end DataTypeDecoder

/-! ### Reading what was written

A reader at the end of `pre`, over `pre ++ (x ++ mid) ++ rest`, reads `x` back and stops at the end
of `pre ++ x`: positions are the lengths of the prefixes read so far. -/

section Read

variable {mem pre mid rest : List UInt8}

lemma decodeUint16At_of_mem {n : Nat} (hn : n < 2 ^ 16)
    (hmem : mem = pre ++ (BigEndian.encode 2 n ++ mid) ++ rest) :
    decodeUint16At mem pre.length = some (((pre ++ BigEndian.encode 2 n).length : Int), n) := by
  have hslice := BigEndian.slice_append pre (BigEndian.encode 2 n) (mid ++ rest)
  rw [BigEndian.length_encode] at hslice
  have hdecode : BigEndian.decode (BigEndian.encode 2 n) = n :=
    BigEndian.decode_encode_of_lt (by simpa using hn)
  have hmem' : mem = pre ++ BigEndian.encode 2 n ++ (mid ++ rest) := by
    rw [hmem]
    simp only [List.append_assoc]
  rw [hmem', decodeUint16At, decodeUint16, hslice, Option.map_some, hdecode, Option.map_some,
    Int.toNat_natCast, List.length_append, BigEndian.length_encode, Nat.cast_add]
  rfl

/-- A `[string]` reads back as a `StringRef` to its bytes, which read back as the string. -/
lemma decodeStringAt_of_mem {s : List UInt8} (hs : s.length < 2 ^ 16)
    (hmem : mem = pre ++ (encodeStringValue s ++ mid) ++ rest) :
    decodeStringAt mem pre.length =
        some (((pre ++ encodeStringValue s).length : Int),
          ⟨(pre ++ BigEndian.encode 2 s.length).length, s.length⟩) ∧
      StringRef.toBytes mem ⟨(pre ++ BigEndian.encode 2 s.length).length, s.length⟩ = some s := by
  have hsize := @decodeUint16At_of_mem mem pre (s ++ mid) rest s.length hs
    (by simp only [hmem, encodeStringValue, List.append_assoc])
  have hslice := BigEndian.slice_append (pre ++ BigEndian.encode 2 s.length) s (mid ++ rest)
  have hmem' : mem = pre ++ BigEndian.encode 2 s.length ++ s ++ (mid ++ rest) := by
    rw [hmem, encodeStringValue]
    simp only [List.append_assoc]
  refine ⟨?_, by rw [hmem', StringRef.toBytes]; exact hslice⟩
  rw [decodeStringAt, hsize]
  simp only [encodeStringValue, List.length_append, BigEndian.length_encode, Nat.cast_add,
    Option.bind_eq_bind, Option.bind_some, Int.add_assoc]
  rfl

/-! The same readers, over bytes laid out at any offset: each stops right after what it read. -/

variable {pos : Int}

lemma decodeUint16At_of_bytesAt {n : Nat} (hn : n < 2 ^ 16)
    (h : BigEndian.BytesAt mem pos (BigEndian.encode 2 n)) :
    decodeUint16At mem pos = some (pos + (BigEndian.encode 2 n).length, n) := by
  obtain ⟨pre, rest, hmem, rfl⟩ := h
  rw [@decodeUint16At_of_mem mem pre [] rest n hn (by simp [hmem]), List.length_append,
    Nat.cast_add]

lemma decodeStringAt_of_bytesAt {s : List UInt8} (hs : s.length < 2 ^ 16)
    (h : BigEndian.BytesAt mem pos (encodeStringValue s)) :
    decodeStringAt mem pos = some (pos + (encodeStringValue s).length, ⟨pos + 2, s.length⟩) ∧
      StringRef.toBytes mem ⟨pos + 2, s.length⟩ = some s := by
  obtain ⟨pre, rest, hmem, rfl⟩ := h
  obtain ⟨h₁, h₂⟩ := @decodeStringAt_of_mem mem pre [] rest s hs (by simp [hmem])
  simp only [List.length_append, BigEndian.length_encode, Nat.cast_add, Nat.cast_ofNat] at h₁ h₂
  exact ⟨h₁, h₂⟩

lemma decodeInt32_of_bytesAt {v : Int} (hlo : -2 ^ 31 ≤ v) (hhi : v < 2 ^ 31)
    (h : BigEndian.BytesAt mem pos (BigEndian.encodeInt 4 v)) : decodeInt32 mem pos = some v := by
  obtain ⟨pre, rest, rfl, rfl⟩ := h
  exact decodeInt32_encodeInt pre rest hlo hhi

lemma decodeInt32At_of_bytesAt {v : Int} (hlo : -2 ^ 31 ≤ v) (hhi : v < 2 ^ 31)
    (h : BigEndian.BytesAt mem pos (BigEndian.encodeInt 4 v)) :
    decodeInt32At mem pos = some (pos + (BigEndian.encodeInt 4 v).length, v) := by
  rw [decodeInt32At, decodeInt32_of_bytesAt hlo hhi h, Option.map_some, BigEndian.length_encodeInt]
  rfl

lemma decodeBytesAt_of_bytesAt {s : List UInt8} (hs : s.length < 2 ^ 31)
    (h : BigEndian.BytesAt mem pos (encodeBytesValue s)) :
    decodeBytesAt mem pos = some (pos + (encodeBytesValue s).length, some ⟨pos + 4, s.length⟩) ∧
      StringRef.toBytes mem ⟨pos + 4, s.length⟩ = some s := by
  obtain ⟨hsize, hbytes⟩ := h.split
  have hread := decodeInt32At_of_bytesAt (by omega) (by omega) hsize
  rw [BigEndian.length_encodeInt] at hread hbytes
  refine ⟨?_, hbytes.slice_eq⟩
  simp only [decodeBytesAt, hread, Option.bind_eq_bind, Option.bind_some, encodeBytesValue,
    List.length_append, BigEndian.length_encodeInt, Nat.cast_add, Int.toNat_natCast]
  rw [if_neg (by omega), Int.add_assoc]
  rfl

end Read

/-! ### One level of `DataTypeDecoder::decode` per kind of type -/

namespace DataTypeDecoder

variable {mem : List UInt8} {fuel : Nat} {pos pos' : Int}

lemma valueTypeId_lt (vt : ValueType) : valueTypeId vt < 2 ^ 16 := by
  cases vt <;> decide

/-- A simple type's id is none of the ids the decoder branches on. -/
lemma valueTypeId_simple {vt : ValueType} (h : vt.isComposite = false) :
    valueTypeId vt ≠ valueTypeId .custom ∧ valueTypeId vt ≠ valueTypeId .list ∧
      valueTypeId vt ≠ valueTypeId .set ∧ valueTypeId vt ≠ valueTypeId .map ∧
      valueTypeId vt ≠ valueTypeId .udt ∧ valueTypeId vt ≠ valueTypeId .tuple := by
  cases vt <;> simp_all [ValueType.isComposite, valueTypeId]

lemma byValueTypeId_valueTypeId {vt : ValueType} (h : vt.isComposite = false) :
    byValueTypeId (valueTypeId vt) = .primitive vt := by
  cases vt <;> first | rfl | exact absurd h (by decide)

/-- One level of `decode`: the id read first picks the branch. -/
lemma decode_succ_of_id {id : Nat} (h : decodeUint16At mem pos = some (pos', id)) :
    decode mem (fuel + 1) pos =
      if id = valueTypeId .custom then decodeCustom mem pos'
      else if id = valueTypeId .list ∨ id = valueTypeId .set then
        (decode mem fuel pos').bind fun r =>
          some (r.1, .collection (if id = valueTypeId .list then .list else .set) [r.2] false)
      else if id = valueTypeId .map then
        (decode mem fuel pos').bind fun r => (decode mem fuel r.1).bind fun r' =>
          some (r'.1, .collection .map [r.2, r'.2] false)
      else if id = valueTypeId .udt then
        (decodeStringAt mem pos').bind fun k => (decodeStringAt mem k.1).bind fun t =>
          (decodeUint16At mem t.1).bind fun n =>
            (decodeFields mem (decode mem fuel) n.2 n.1).bind fun f =>
              (k.2.toBytes mem).bind fun keyspace => (t.2.toBytes mem).bind fun typeName =>
                some (f.1, .userType (latin1 keyspace) (latin1 typeName) f.2 false)
      else if id = valueTypeId .tuple then
        (decodeUint16At mem pos').bind fun n =>
          (decodeTypes (decode mem fuel) n.2 n.1).bind fun r => some (r.1, .tuple r.2 false)
      else some (pos', byValueTypeId id) := by
  simp only [decode, h, Option.bind_eq_bind, Option.bind_some]
  rfl

lemma decode_custom (h : decodeUint16At mem pos = some (pos', valueTypeId .custom)) :
    decode mem (fuel + 1) pos = decodeCustom mem pos' := by
  rw [decode_succ_of_id h, if_pos rfl]

lemma decode_list (h : decodeUint16At mem pos = some (pos', valueTypeId .list)) :
    decode mem (fuel + 1) pos =
      (decode mem fuel pos').bind fun r => some (r.1, .collection .list [r.2] false) := by
  rw [decode_succ_of_id h]
  rfl

lemma decode_set (h : decodeUint16At mem pos = some (pos', valueTypeId .set)) :
    decode mem (fuel + 1) pos =
      (decode mem fuel pos').bind fun r => some (r.1, .collection .set [r.2] false) := by
  rw [decode_succ_of_id h]
  rfl

lemma decode_map (h : decodeUint16At mem pos = some (pos', valueTypeId .map)) :
    decode mem (fuel + 1) pos =
      (decode mem fuel pos').bind fun r => (decode mem fuel r.1).bind fun r' =>
        some (r'.1, .collection .map [r.2, r'.2] false) := by
  rw [decode_succ_of_id h]
  rfl

lemma decode_udt (h : decodeUint16At mem pos = some (pos', valueTypeId .udt)) :
    decode mem (fuel + 1) pos =
      (decodeStringAt mem pos').bind fun k => (decodeStringAt mem k.1).bind fun t =>
        (decodeUint16At mem t.1).bind fun n =>
          (decodeFields mem (decode mem fuel) n.2 n.1).bind fun f =>
            (k.2.toBytes mem).bind fun keyspace => (t.2.toBytes mem).bind fun typeName =>
              some (f.1, .userType (latin1 keyspace) (latin1 typeName) f.2 false) := by
  rw [decode_succ_of_id h]
  rfl

lemma decode_tuple (h : decodeUint16At mem pos = some (pos', valueTypeId .tuple)) :
    decode mem (fuel + 1) pos =
      (decodeUint16At mem pos').bind fun n => (decodeTypes (decode mem fuel) n.2 n.1).bind fun r =>
        some (r.1, .tuple r.2 false) := by
  rw [decode_succ_of_id h]
  rfl

lemma decode_simple {vt : ValueType} (hvt : vt.isComposite = false)
    (h : decodeUint16At mem pos = some (pos', valueTypeId vt)) :
    decode mem (fuel + 1) pos = some (pos', .primitive vt) := by
  obtain ⟨h₁, h₂, h₃, h₄, h₅, h₆⟩ := valueTypeId_simple hvt
  rw [decode_succ_of_id h, if_neg h₁, if_neg (not_or.2 ⟨h₂, h₃⟩), if_neg h₄, if_neg h₅, if_neg h₆,
    byValueTypeId_valueTypeId hvt]

end DataTypeDecoder

/-! ### Types on the wire -/

/-- A type as the protocol writes it, an `[option]`: a custom class by its name, a simple type, a
list, set or map of its element types, a user type with its fields, or a tuple. -/
inductive OptionType
  | custom (className : List UInt8)
  | simple (valueType : ValueType)
  | list (elem : OptionType)
  | set (elem : OptionType)
  | map (key value : OptionType)
  | udt (keyspace typeName : List UInt8) (fields : List (List UInt8 × OptionType))
  | tuple (types : List OptionType)

namespace OptionType

open DataTypeDecoder (valueTypeId)

mutual
/-- The `[option]` bytes of a type: its id, then what the id announces. -/
def encode : OptionType → List UInt8
  | custom className => BigEndian.encode 2 (valueTypeId .custom) ++ encodeStringValue className
  | simple vt => BigEndian.encode 2 (valueTypeId vt)
  | list elem => BigEndian.encode 2 (valueTypeId .list) ++ elem.encode
  | set elem => BigEndian.encode 2 (valueTypeId .set) ++ elem.encode
  | map key value => BigEndian.encode 2 (valueTypeId .map) ++ key.encode ++ value.encode
  | udt keyspace typeName fields =>
    BigEndian.encode 2 (valueTypeId .udt) ++ encodeStringValue keyspace ++
      encodeStringValue typeName ++ BigEndian.encode 2 fields.length ++ encodeFields fields
  | tuple types => BigEndian.encode 2 (valueTypeId .tuple) ++ BigEndian.encode 2 types.length ++
      encodeList types

/-- The `[option]`s of the components of a tuple, one after the other. -/
def encodeList : List OptionType → List UInt8
  | [] => []
  | type :: types => type.encode ++ encodeList types

/-- The fields of a user type: each a `[string]` name and an `[option]`. -/
def encodeFields : List (List UInt8 × OptionType) → List UInt8
  | [] => []
  | (name, type) :: fields => encodeStringValue name ++ type.encode ++ encodeFields fields
end

mutual
/-- The `DataType` a type stands for. -/
def toDataType : OptionType → DataType
  | custom className => .custom (latin1 className)
  | simple vt => .primitive vt
  | list elem => .collection .list [elem.toDataType] false
  | set elem => .collection .set [elem.toDataType] false
  | map key value => .collection .map [key.toDataType, value.toDataType] false
  | udt keyspace typeName fields =>
    .userType (latin1 keyspace) (latin1 typeName) (toDataTypeFields fields) false
  | tuple types => .tuple (toDataTypeList types) false

def toDataTypeList : List OptionType → List DataType
  | [] => []
  | type :: types => type.toDataType :: toDataTypeList types

def toDataTypeFields : List (List UInt8 × OptionType) → List (String × DataType)
  | [] => []
  | (name, type) :: fields => (latin1 name, type.toDataType) :: toDataTypeFields fields
end

mutual
/-- What a server writes: names and counts that fit their `[short]`, simple types that are
not composite, and class names that name no simple type. -/
def WellFormed : OptionType → Prop
  | custom className =>
    className.length < 2 ^ 16 ∧
      (ValueType.byClass (className.map fun b => Char.ofNat b.toNat)).isComposite = true
  | simple vt => vt.isComposite = false
  | list elem => elem.WellFormed
  | set elem => elem.WellFormed
  | map key value => key.WellFormed ∧ value.WellFormed
  | udt keyspace typeName fields =>
    keyspace.length < 2 ^ 16 ∧ typeName.length < 2 ^ 16 ∧ fields.length < 2 ^ 16 ∧
      WellFormedFields fields
  | tuple types => types.length < 2 ^ 16 ∧ WellFormedList types

def WellFormedList : List OptionType → Prop
  | [] => True
  | type :: types => type.WellFormed ∧ WellFormedList types

def WellFormedFields : List (List UInt8 × OptionType) → Prop
  | [] => True
  | (name, type) :: fields => name.length < 2 ^ 16 ∧ type.WellFormed ∧ WellFormedFields fields
end

mutual
/-- The depth of a type, the recursion `DataTypeDecoder::decode` goes through. -/
def depth : OptionType → Nat
  | custom _ => 1
  | simple _ => 1
  | list elem => elem.depth + 1
  | set elem => elem.depth + 1
  | map key value => max key.depth value.depth + 1
  | udt _ _ fields => depthFields fields + 1
  | tuple types => depthList types + 1

def depthList : List OptionType → Nat
  | [] => 0
  | type :: types => max type.depth (depthList types)

def depthFields : List (List UInt8 × OptionType) → Nat
  | [] => 0
  | (_, type) :: fields => max type.depth (depthFields fields)
end

mutual
/-- Each level of a type writes at least its two-byte id. -/
theorem depth_le_length_encode : ∀ type : OptionType, type.depth ≤ type.encode.length
  | custom _ => by
    simp [depth, encode]
    omega
  | simple _ => by simp [depth, encode]
  | list elem => by
    have := depth_le_length_encode elem
    simp [depth, encode]
    omega
  | set elem => by
    have := depth_le_length_encode elem
    simp [depth, encode]
    omega
  | map key value => by
    have := depth_le_length_encode key
    have := depth_le_length_encode value
    simp [depth, encode]
    omega
  | udt _ _ fields => by
    have := depthFields_le_length_encodeFields fields
    simp [depth, encode]
    omega
  | tuple types => by
    have := depthList_le_length_encodeList types
    simp [depth, encode]
    omega

theorem depthList_le_length_encodeList :
    ∀ types : List OptionType, depthList types ≤ (encodeList types).length
  | [] => by simp [depthList, encodeList]
  | type :: types => by
    have := depth_le_length_encode type
    have := depthList_le_length_encodeList types
    simp [depthList, encodeList]
    omega

theorem depthFields_le_length_encodeFields :
    ∀ fields : List (List UInt8 × OptionType), depthFields fields ≤ (encodeFields fields).length
  | [] => by simp [depthFields, encodeFields]
  | (_, type) :: fields => by
    have := depth_le_length_encode type
    have := depthFields_le_length_encodeFields fields
    simp [depthFields, encodeFields]
    omega
end

lemma one_le_depth (type : OptionType) : 1 ≤ type.depth := by
  cases type <;> simp [depth]

open DataTypeDecoder in
mutual
/-- `DataTypeDecoder::decode` reads a well-formed type back from its `[option]`, given fuel for
its depth, and stops right after it. -/
theorem decode_encode {mem : List UInt8} :
    ∀ (type : OptionType) (pre rest : List UInt8) (fuel : Nat),
      mem = pre ++ type.encode ++ rest → type.WellFormed → type.depth ≤ fuel →
        decode mem fuel pre.length = some (((pre ++ type.encode).length : Int), type.toDataType)
  | custom className, pre, rest, fuel + 1, hmem, hwf, _ => by
    obtain ⟨hlen, hclass⟩ := hwf
    have hid := @decodeUint16At_of_mem mem pre (encodeStringValue className) rest _
      (valueTypeId_lt .custom) (by simp only [hmem, encode, List.append_assoc])
    obtain ⟨hstr, hbytes⟩ := @decodeStringAt_of_mem mem (pre ++ BigEndian.encode 2 (valueTypeId .custom))
      [] rest className hlen (by simp only [hmem, encode, List.append_assoc, List.append_nil])
    rw [decode_custom hid, decodeCustom, hstr]
    simp only [Option.bind_eq_bind, Option.bind_some, hbytes, DataType.byValueType_of_isComposite hclass]
    simp only [encode, toDataType, List.append_assoc]
    rfl
  | simple vt, pre, rest, fuel + 1, hmem, hwf, _ => by
    have hid := @decodeUint16At_of_mem mem pre [] rest _ (valueTypeId_lt vt)
      (by simp only [hmem, encode, List.append_assoc, List.append_nil])
    rw [decode_simple hwf hid]
    rfl
  | list elem, pre, rest, fuel + 1, hmem, hwf, hdepth => by
    have hid := @decodeUint16At_of_mem mem pre elem.encode rest _ (valueTypeId_lt .list)
      (by simp only [hmem, encode, List.append_assoc])
    have helem := @decode_encode mem elem (pre ++ BigEndian.encode 2 (valueTypeId .list)) rest fuel
      (by simp only [hmem, encode, List.append_assoc]) hwf (by simp only [depth] at hdepth; omega)
    rw [decode_list hid, helem]
    simp only [Option.bind_some, encode, toDataType, List.append_assoc]
  | set elem, pre, rest, fuel + 1, hmem, hwf, hdepth => by
    have hid := @decodeUint16At_of_mem mem pre elem.encode rest _ (valueTypeId_lt .set)
      (by simp only [hmem, encode, List.append_assoc])
    have helem := @decode_encode mem elem (pre ++ BigEndian.encode 2 (valueTypeId .set)) rest fuel
      (by simp only [hmem, encode, List.append_assoc]) hwf (by simp only [depth] at hdepth; omega)
    rw [decode_set hid, helem]
    simp only [Option.bind_some, encode, toDataType, List.append_assoc]
  | map key value, pre, rest, fuel + 1, hmem, hwf, hdepth => by
    obtain ⟨hkey, hvalue⟩ := hwf
    have hid := @decodeUint16At_of_mem mem pre (key.encode ++ value.encode) rest _
      (valueTypeId_lt .map) (by simp only [hmem, encode, List.append_assoc])
    have hk := @decode_encode mem key (pre ++ BigEndian.encode 2 (valueTypeId .map))
      (value.encode ++ rest) fuel (by simp only [hmem, encode, List.append_assoc]) hkey
      (by simp only [depth] at hdepth; omega)
    have hv := @decode_encode mem value (pre ++ BigEndian.encode 2 (valueTypeId .map) ++ key.encode)
      rest fuel (by simp only [hmem, encode, List.append_assoc]) hvalue
      (by simp only [depth] at hdepth; omega)
    rw [decode_map hid, hk, Option.bind_some, hv]
    simp only [Option.bind_some, encode, toDataType, List.append_assoc]
  | udt keyspace typeName fields, pre, rest, fuel + 1, hmem, hwf, hdepth => by
    obtain ⟨hks, htn, hcount, hfields⟩ := hwf
    have hid := @decodeUint16At_of_mem mem pre (encodeStringValue keyspace ++
        encodeStringValue typeName ++ BigEndian.encode 2 fields.length ++ encodeFields fields)
      rest _ (valueTypeId_lt .udt) (by simp only [hmem, encode, List.append_assoc])
    obtain ⟨hks₁, hks₂⟩ := @decodeStringAt_of_mem mem
      (pre ++ BigEndian.encode 2 (valueTypeId .udt))
      (encodeStringValue typeName ++ BigEndian.encode 2 fields.length ++ encodeFields fields)
      rest keyspace hks (by simp only [hmem, encode, List.append_assoc])
    obtain ⟨htn₁, htn₂⟩ := @decodeStringAt_of_mem mem
      (pre ++ BigEndian.encode 2 (valueTypeId .udt) ++ encodeStringValue keyspace)
      (BigEndian.encode 2 fields.length ++ encodeFields fields) rest typeName htn
      (by simp only [hmem, encode, List.append_assoc])
    have hn := @decodeUint16At_of_mem mem (pre ++ BigEndian.encode 2 (valueTypeId .udt) ++
        encodeStringValue keyspace ++ encodeStringValue typeName) (encodeFields fields) rest _
      hcount (by simp only [hmem, encode, List.append_assoc])
    have hf := @decodeFields_encodeFields mem fields (pre ++ BigEndian.encode 2 (valueTypeId .udt) ++
        encodeStringValue keyspace ++ encodeStringValue typeName ++
        BigEndian.encode 2 fields.length) rest fuel
      (by simp only [hmem, encode, List.append_assoc]) hfields
      (by simp only [depth] at hdepth; omega)
    rw [decode_udt hid, hks₁, Option.bind_some, htn₁, Option.bind_some, hn, Option.bind_some, hf,
      Option.bind_some, hks₂, Option.bind_some, htn₂, Option.bind_some]
    simp only [encode, toDataType, List.append_assoc]
  | tuple types, pre, rest, fuel + 1, hmem, hwf, hdepth => by
    obtain ⟨hcount, htypes⟩ := hwf
    have hid := @decodeUint16At_of_mem mem pre (BigEndian.encode 2 types.length ++
        encodeList types) rest _ (valueTypeId_lt .tuple) (by simp only [hmem, encode, List.append_assoc])
    have hn := @decodeUint16At_of_mem mem (pre ++ BigEndian.encode 2 (valueTypeId .tuple))
      (encodeList types) rest _ hcount (by simp only [hmem, encode, List.append_assoc])
    have ht := @decodeTypes_encodeList mem types (pre ++ BigEndian.encode 2 (valueTypeId .tuple) ++
        BigEndian.encode 2 types.length) rest fuel
      (by simp only [hmem, encode, List.append_assoc]) htypes
      (by simp only [depth] at hdepth; omega)
    rw [decode_tuple hid, hn, Option.bind_some, ht, Option.bind_some]
    simp only [encode, toDataType, List.append_assoc]
  | type, _, _, 0, _, _, hdepth => absurd hdepth (by have := one_le_depth type; omega)

theorem decodeTypes_encodeList {mem : List UInt8} :
    ∀ (types : List OptionType) (pre rest : List UInt8) (fuel : Nat),
      mem = pre ++ encodeList types ++ rest → WellFormedList types → depthList types ≤ fuel →
        decodeTypes (decode mem fuel) types.length pre.length =
          some (((pre ++ encodeList types).length : Int), toDataTypeList types)
  | [], pre, rest, fuel, _, _, _ => by
    simp [decodeTypes, encodeList, toDataTypeList]
  | type :: types, pre, rest, fuel, hmem, hwf, hdepth => by
    obtain ⟨htype, htypes⟩ := hwf
    have h₁ := @decode_encode mem type pre (encodeList types ++ rest) fuel
      (by simp only [hmem, encodeList, List.append_assoc]) htype
      (by simp only [depthList] at hdepth; omega)
    have h₂ := @decodeTypes_encodeList mem types (pre ++ type.encode) rest fuel
      (by simp only [hmem, encodeList, List.append_assoc]) htypes
      (by simp only [depthList] at hdepth; omega)
    simp only [List.length_cons, decodeTypes, h₁, Option.bind_eq_bind, Option.bind_some, h₂]
    simp only [encodeList, toDataTypeList, List.append_assoc]
    rfl

theorem decodeFields_encodeFields {mem : List UInt8} :
    ∀ (fields : List (List UInt8 × OptionType)) (pre rest : List UInt8) (fuel : Nat),
      mem = pre ++ encodeFields fields ++ rest → WellFormedFields fields →
        depthFields fields ≤ fuel →
        decodeFields mem (decode mem fuel) fields.length pre.length =
          some (((pre ++ encodeFields fields).length : Int), toDataTypeFields fields)
  | [], pre, rest, fuel, _, _, _ => by
    simp [decodeFields, encodeFields, toDataTypeFields]
  | (name, type) :: fields, pre, rest, fuel, hmem, hwf, hdepth => by
    obtain ⟨hname, htype, hfields⟩ := hwf
    obtain ⟨hn₁, hn₂⟩ := @decodeStringAt_of_mem mem pre (type.encode ++ encodeFields fields) rest
      name hname (by simp only [hmem, encodeFields, List.append_assoc])
    have h₁ := @decode_encode mem type (pre ++ encodeStringValue name) (encodeFields fields ++ rest) fuel
      (by simp only [hmem, encodeFields, List.append_assoc]) htype
      (by simp only [depthFields] at hdepth; omega)
    have h₂ := @decodeFields_encodeFields mem fields (pre ++ encodeStringValue name ++ type.encode) rest
      fuel (by simp only [hmem, encodeFields, List.append_assoc]) hfields
      (by simp only [depthFields] at hdepth; omega)
    simp only [List.length_cons, decodeFields, hn₁, Option.bind_eq_bind, Option.bind_some, hn₂, h₁,
      h₂]
    simp only [encodeFields, toDataTypeFields, List.append_assoc]
    rfl
end

lemma toDataType_isNil (type : OptionType) : type.toDataType.isNil = false := by
  cases type <;> rfl

/-- A well-formed type laid out anywhere in the buffer reads back, given fuel for its depth. -/
lemma decode_of_bytesAt {mem : List UInt8} {pos : Int} {type : OptionType} {fuel : Nat}
    (h : BigEndian.BytesAt mem pos type.encode) (hwf : type.WellFormed) (hdepth : type.depth ≤ fuel) :
    DataTypeDecoder.decode mem fuel pos = some (pos + type.encode.length, type.toDataType) := by
  obtain ⟨pre, rest, hmem, rfl⟩ := h
  rw [decode_encode type pre rest fuel hmem hwf hdepth, List.length_append, Nat.cast_add]

/-- The fuel `decode_metadata` gives the type decoder is enough for any type in the buffer. -/
lemma depth_le_of_bytesAt {mem : List UInt8} {pos : Int} {type : OptionType}
    (h : BigEndian.BytesAt mem pos type.encode) : type.depth ≤ mem.length + 1 := by
  have h₁ := depth_le_length_encode type
  have h₂ := h.length_le
  omega

end OptionType

/-! ### The response -/

/-- `StringRef()`: no bytes, at the null pointer. -/
def StringRef.empty : StringRef := ⟨0, 0⟩

/-- `ColumnDefinition`: the column's index, its table (left empty under a global table spec),
its name and its type. -/
structure ColumnDefinition where
  index : Nat
  keyspace : StringRef
  table : StringRef
  name : StringRef
  dataType : DataType

/-- `CASS_RESULT_KIND_VOID`. -/
def resultKindVoid : Int := 1

/-- `CASS_RESULT_KIND_ROWS`. -/
def resultKindRows : Int := 2

/-- `CASS_RESULT_KIND_SET_KEYSPACE`. -/
def resultKindSetKeyspace : Int := 3

/-- `CASS_RESULT_KIND_PREPARED`. -/
def resultKindPrepared : Int := 4

/-- `CASS_RESULT_KIND_SCHEMA_CHANGE`. -/
def resultKindSchemaChange : Int := 5

/-- The fields of `ResultResponse` its decoder sets, with the values its constructor gives them.
A `ResultMetadata` is its column definitions in the order they were added, `none` for a null
pointer; `rows` is the position of the rows after the first, `NULL` (`0`) until it is read. -/
structure ResultResponse where
  protocolVersion : Int := 0
  kind : Int := resultKindVoid
  hasMorePages : Bool := false
  metadata : Option (List ColumnDefinition) := none
  resultMetadata : Option (List ColumnDefinition) := none
  pagingState : Option StringRef := none
  preparedId : StringRef := .empty
  resultMetadataId : StringRef := .empty
  change : StringRef := .empty
  keyspace : StringRef := .empty
  table : StringRef := .empty
  newMetadataId : StringRef := .empty
  rowCount : Int := 0
  rows : Int := 0
  firstRow : List Value := []
  pkIndices : List Nat := []

namespace ResultResponse

/-- The types of the columns, as `decode_row` reads them: none without metadata. -/
def columnTypes (r : ResultResponse) : List DataType :=
  (r.metadata.getD []).map ColumnDefinition.dataType

/-- The loop of `decode_metadata` over the partition key indices. -/
def decodePkIndices (mem : List UInt8) : Nat → Int → Option (Int × List Nat)
  | 0, pos => some (pos, [])
  | n + 1, pos => do
    let (pos, index) ← decodeUint16At mem pos
    let (pos, indices) ← decodePkIndices mem n pos
    pure (pos, index :: indices)

/-- The loop of `decode_metadata` over the columns, from the one of index `i`. `DataTypeDecoder`
recurses without bound, but each level reads two bytes further on, so a tree deeper than the
buffer is long reads outside it: `mem.length + 1` levels of fuel never run out first. -/
def decodeColumns (mem : List UInt8) (globalTableSpec : Bool) :
    Nat → Nat → Int → Option (Int × List ColumnDefinition)
  | 0, _, pos => some (pos, [])
  | n + 1, i, pos => do
    let (pos, keyspace, table) ← if globalTableSpec then pure (pos, StringRef.empty, StringRef.empty)
      else do
        let (pos, keyspace) ← decodeStringAt mem pos
        let (pos, table) ← decodeStringAt mem pos
        pure (pos, keyspace, table)
    let (pos, name) ← decodeStringAt mem pos
    let (pos, dataType) ← DataTypeDecoder.decode mem (mem.length + 1) pos
    let (pos, defs) ← decodeColumns mem globalTableSpec n (i + 1) pos
    pure (pos, ⟨i, keyspace, table, name, dataType⟩ :: defs)

/-- The paging state in `decode_metadata`, read when there are more pages. -/
def decodePagingState (mem : List UInt8) (flags : Int) (pos : Int) (r : ResultResponse) :
    Option (Int × ResultResponse) :=
  if hasFlag flags resultFlagHasMorePages then do
    let (pos, pagingState) ← decodeBytesAt mem pos
    pure (pos, { r with hasMorePages := true, pagingState })
  else pure (pos, { r with hasMorePages := false })

/-- The table spec in `decode_metadata`, read once for all columns when it is global. -/
def decodeGlobalTableSpec (mem : List UInt8) (globalTableSpec : Bool) (pos : Int)
    (r : ResultResponse) : Option (Int × ResultResponse) :=
  if globalTableSpec then do
    let (pos, keyspace) ← decodeStringAt mem pos
    let (pos, table) ← decodeStringAt mem pos
    pure (pos, { r with keyspace, table })
  else pure (pos, r)

/-- The end of `decode_metadata`, unless `NO_METADATA` leaves the `ResultMetadata` as it is: the
table spec and the columns. -/
def decodeColumnSpecs (mem : List UInt8) (flags columnCount : Int) (pos : Int) (r : ResultResponse) :
    Option (Int × ResultResponse × Option (List ColumnDefinition)) :=
  if hasFlag flags resultFlagNoMetadata then pure (pos, r, none)
  else do
    let globalTableSpec := hasFlag flags resultFlagGlobalTablespec
    let (pos, r) ← decodeGlobalTableSpec mem globalTableSpec pos r
    -- `ResultMetadata(column_count)` reserves room for a `size_t` count: a negative one is huge
    if columnCount < 0 then none
    else
      let (pos, defs) ← decodeColumns mem globalTableSpec columnCount.toNat 0 pos
      pure (pos, r, some defs)

/-- `ResultResponse::decode_metadata` from `pos`: the position after the metadata, the response
with the fields it sets, and the column definitions, `none` where `NO_METADATA` leaves the
`ResultMetadata` as it is. -/
def decodeMetadata (version : Int) (mem : List UInt8) (pos : Int) (r : ResultResponse)
    (hasPkIndices : Bool) : Option (Int × ResultResponse × Option (List ColumnDefinition)) := do
  let (pos, flags) ← decodeInt32At mem pos
  let (pos, columnCount) ← decodeInt32At mem pos
  let (pos, r) ← if supportsResultMetadataId version then
      if hasFlag flags resultFlagMetadataChanged then do
        let (pos, newMetadataId) ← decodeStringAt mem pos
        pure (pos, { r with newMetadataId })
      else pure (pos, r)
    else pure (pos, r)
  let (pos, r) ← if hasPkIndices then do
      let (pos, pkCount) ← decodeInt32At mem pos
      let (pos, pkIndices) ← decodePkIndices mem pkCount.toNat pos
      pure (pos, { r with pkIndices := r.pkIndices ++ pkIndices })
    else pure (pos, r)
  let (pos, r) ← decodePagingState mem flags pos r
  decodeColumnSpecs mem flags columnCount pos r

/-- `ResultResponse::decode_first_row`: the first row is decoded once, when there are rows and
metadata to read them with; `rows` then points past it. -/
def decodeFirstRow (mem : List UInt8) (r : ResultResponse) : Option ResultResponse :=
  match r.metadata with
  | some defs =>
    if r.rowCount > 0 ∧ r.firstRow.isEmpty then do
      let (firstRow, rows) ← decodeRow mem r.protocolVersion (defs.map ColumnDefinition.dataType)
        r.rows
      pure { r with firstRow, rows }
    else pure r
  | none => pure r

/-- `ResultResponse::set_metadata`, for a result decoded without its metadata. -/
def setMetadata (mem : List UInt8) (r : ResultResponse) (defs : List ColumnDefinition) :
    Option ResultResponse :=
  decodeFirstRow mem { r with metadata := some defs }

/-- `ResultResponse::decode_rows`. -/
def decodeRows (version : Int) (mem : List UInt8) (input : Int) (r : ResultResponse) :
    Option ResultResponse := do
  let (buffer, r, metadata) ← decodeMetadata version mem input r false
  let (rows, rowCount) ← decodeInt32At mem buffer
  decodeFirstRow mem { r with metadata := metadata.or r.metadata, rows, rowCount }

/-- `ResultResponse::decode_set_keyspace`. -/
def decodeSetKeyspace (mem : List UInt8) (input : Int) (r : ResultResponse) :
    Option ResultResponse := do
  let (_, keyspace) ← decodeStringAt mem input
  pure { r with keyspace }

/-- `ResultResponse::decode_prepared`: the id, the metadata of the bound variables and, from
version 2 on, the metadata of the result. -/
def decodePrepared (version : Int) (mem : List UInt8) (input : Int) (r : ResultResponse) :
    Option ResultResponse := do
  let (buffer, preparedId) ← decodeStringAt mem input
  let r := { r with preparedId }
  let (buffer, r) ← if supportsResultMetadataId version then do
      let (buffer, resultMetadataId) ← decodeStringAt mem buffer
      pure (buffer, { r with resultMetadataId })
    else pure (buffer, r)
  let (buffer, r, metadata) ← decodeMetadata version mem buffer r (decide (version ≥ 4))
  let r := { r with metadata := metadata.or r.metadata }
  if version > 1 then do
    let (_, r, resultMetadata) ← decodeMetadata version mem buffer r false
    pure { r with resultMetadata := resultMetadata.or r.resultMetadata }
  else pure r

/-- `ResultResponse::decode_schema_change`. -/
def decodeSchemaChange (mem : List UInt8) (input : Int) (r : ResultResponse) :
    Option ResultResponse := do
  let (buffer, change) ← decodeStringAt mem input
  let (buffer, keyspace) ← decodeStringAt mem buffer
  let (_, table) ← decodeStringAt mem buffer
  pure { r with change, keyspace, table }

/-- `ResultResponse::decode` of the body at `input`: whether it was decoded, and the response.
`size` is never read. A kind the switch does not list fails an `assert`, which a release build
leaves out: the body is then rejected. -/
def decode (version : Int) (mem : List UInt8) (input : Int) (_size : Int) :
    Option (Bool × ResultResponse) := do
  let (buffer, kind) ← decodeInt32At mem input
  let r : ResultResponse := { protocolVersion := version, kind }
  if kind = resultKindVoid then pure (true, r)
  else if kind = resultKindRows then (decodeRows version mem buffer r).map ((true, ·))
  else if kind = resultKindSetKeyspace then (decodeSetKeyspace mem buffer r).map ((true, ·))
  else if kind = resultKindPrepared then (decodePrepared version mem buffer r).map ((true, ·))
  else if kind = resultKindSchemaChange then (decodeSchemaChange mem buffer r).map ((true, ·))
  else pure (false, r)

end ResultResponse

/-! ### Iterating over the rows -/

/-- `ResultIterator`: the index of the current row (`-1` before the first), where the next row
starts, and the values of the row it decoded last. -/
structure ResultIterator where
  index : Int
  position : Int
  values : List Value

namespace ResultIterator

/-- `ResultIterator(result)`. -/
def new (r : ResultResponse) : ResultIterator := ⟨-1, r.rows, []⟩

/-- `ResultIterator::next`: the response decoded the first row; each later one is decoded here,
from where the last one ended. -/
def next (mem : List UInt8) (r : ResultResponse) (it : ResultIterator) :
    Option (Bool × ResultIterator) :=
  if it.index + 1 ≥ r.rowCount then some (false, it)
  else if it.index + 1 > 0 then do
    let (row, position) ← decodeRow mem r.protocolVersion r.columnTypes it.position
    pure (true, ⟨it.index + 1, position, row⟩)
  else pure (true, { it with index := it.index + 1 })

/-- `ResultIterator::row`. -/
def row (r : ResultResponse) (it : ResultIterator) : List Value :=
  if it.index > 0 then it.values else r.firstRow

/-- Calls of `cass_iterator_next` and `cass_iterator_get_row`, at most `fuel` of `next`, until
`next` returns false: the rows. -/
def pass (mem : List UInt8) (r : ResultResponse) : Nat → ResultIterator → Option (List (List Value))
  | 0, _ => none
  | fuel + 1, it => do
    let (more, it) ← next mem r it
    if more then
      let rows ← pass mem r fuel it
      pure (row r it :: rows)
    else pure []

/-- A whole pass over a result: `next` returns true once per row, then false. -/
def rows (mem : List UInt8) (r : ResultResponse) : Option (List (List Value)) :=
  pass mem r (r.rowCount.toNat + 1) (new r)

end ResultIterator

/-! ### Rows as the protocol lays them out

What the decoder is for: the protocol's layout of a RESULT of kind Rows, for the flags this
driver reads. This is not the driver's code, which only reads such bodies. -/

/-- A column of the metadata: its table, its name and its type. -/
structure ColumnSpec where
  keyspace : List UInt8
  table : List UInt8
  name : List UInt8
  type : OptionType

namespace ColumnSpec

/-- The `<col_spec>` of a column: its table unless the table spec is global, its name and its
type. -/
def encode (globalTableSpec : Bool) (c : ColumnSpec) : List UInt8 :=
  (if globalTableSpec then [] else encodeStringValue c.keyspace ++ encodeStringValue c.table) ++
    (encodeStringValue c.name ++ c.type.encode)

/-- Strings the protocol can carry, and a type the decoder reads back as itself. -/
def WellFormed (c : ColumnSpec) : Prop :=
  c.keyspace.length < 2 ^ 16 ∧ c.table.length < 2 ^ 16 ∧ c.name.length < 2 ^ 16 ∧
    c.type.WellFormed

end ColumnSpec

/-- A cell: a `[bytes]`, of size `-1` for null. -/
def encodeCell : Option (List UInt8) → List UInt8
  | none => BigEndian.encodeInt 4 (-1)
  | some bytes => encodeBytesValue bytes

/-- The rows, each its cells one after another. -/
def encodeRows (rows : List (List (Option (List UInt8)))) : List UInt8 :=
  rows.flatMap (List.flatMap encodeCell)

/-- A cell the protocol can carry in a column of type `type`: fewer than `2^31` bytes, and the
bytes of a collection start with its count. -/
def CellWellFormed (type : DataType) : Option (List UInt8) → Prop
  | none => True
  | some bytes => bytes.length < 2 ^ 31 ∧ (type.isCollection = true → bytes ≠ [] → 4 ≤ bytes.length)

/-- What `decode_row` gives for a cell in a column of type `type`: the null value of the type, or
the value the `Value` constructor builds over the cell's bytes. -/
def CellDecoded (mem : List UInt8) (version : Int) (type : DataType) :
    Option (List UInt8) → Value → Prop
  | none, v => v = Value.null type
  | some bytes, v => ∃ data, BigEndian.slice mem data bytes.length = some bytes ∧
      Value.make mem version type data bytes.length = some v

/-- The values of a row, each decoded from its cell. -/
def RowDecoded (mem : List UInt8) (version : Int) :
    List DataType → List (Option (List UInt8)) → List Value → Prop
  | [], [], [] => True
  | type :: types, cell :: cells, v :: vs =>
    CellDecoded mem version type cell v ∧ RowDecoded mem version types cells vs
  | _, _, _ => False

/-- A RESULT body of kind Rows: the table of every column when the table spec is global, the
paging state when there are more pages, whether the metadata is left out, the columns, and the
rows, a cell `none` for null. -/
structure RowsBody where
  globalTableSpec : Option (List UInt8 × List UInt8)
  pagingState : Option (List UInt8)
  noMetadata : Bool
  columns : List ColumnSpec
  rows : List (List (Option (List UInt8)))

namespace RowsBody

/-- `GLOBAL_TABLESPEC`, `HAS_MORE_PAGES` and `NO_METADATA`, as the body has them. -/
def flags (b : RowsBody) : Int :=
  (if b.globalTableSpec.isSome then 1 else 0) + (if b.pagingState.isSome then 2 else 0) +
    (if b.noMetadata then 4 else 0)

/-- The paging state, when there are more pages. -/
def encodePagingState (b : RowsBody) : List UInt8 := (b.pagingState.map encodeBytesValue).getD []

/-- The global table spec, when there is one. -/
def encodeGlobalTableSpec (b : RowsBody) : List UInt8 :=
  (b.globalTableSpec.map fun (k, t) => encodeStringValue k ++ encodeStringValue t).getD []

/-- The table spec and the columns, unless the metadata is left out. -/
def encodeColumnSpecs (b : RowsBody) : List UInt8 :=
  if b.noMetadata then []
  else b.encodeGlobalTableSpec ++ b.columns.flatMap (ColumnSpec.encode b.globalTableSpec.isSome)

/-- The `<metadata>`: flags, column count, paging state, then the column specs. -/
def encodeMetadata (b : RowsBody) : List UInt8 :=
  BigEndian.encodeInt 4 b.flags ++
    (BigEndian.encodeInt 4 b.columns.length ++ (b.encodePagingState ++ b.encodeColumnSpecs))

/-- The body: its kind, the metadata, the row count and the rows. -/
def encode (b : RowsBody) : List UInt8 :=
  BigEndian.encodeInt 4 resultKindRows ++
    (b.encodeMetadata ++ (BigEndian.encodeInt 4 b.rows.length ++ encodeRows b.rows))

/-- The types of the columns, as the decoder builds them. -/
def columnTypes (b : RowsBody) : List DataType := b.columns.map fun c => c.type.toDataType

/-- A body the protocol can carry, with the types and cells the decoder reads back. -/
structure WellFormed (b : RowsBody) : Prop where
  globalTableSpec : ∀ k t, b.globalTableSpec = some (k, t) → k.length < 2 ^ 16 ∧ t.length < 2 ^ 16
  pagingState : ∀ p, b.pagingState = some p → p.length < 2 ^ 31
  columns : ∀ c ∈ b.columns, c.WellFormed
  columnCount : b.columns.length < 2 ^ 31
  rowCount : b.rows.length < 2 ^ 31
  cells : ∀ row ∈ b.rows, List.Forall₂ CellWellFormed b.columnTypes row

lemma hasFlag_flags (b : RowsBody) :
    hasFlag b.flags resultFlagGlobalTablespec = b.globalTableSpec.isSome ∧
      hasFlag b.flags resultFlagHasMorePages = b.pagingState.isSome ∧
      hasFlag b.flags resultFlagNoMetadata = b.noMetadata ∧
      hasFlag b.flags resultFlagMetadataChanged = false := by
  unfold flags
  cases b.globalTableSpec.isSome <;> cases b.pagingState.isSome <;> cases b.noMetadata <;> decide

lemma flags_bounds (b : RowsBody) : 0 ≤ b.flags ∧ b.flags < 8 := by
  unfold flags
  split_ifs <;> omega

end RowsBody

/-! ### Reading rows back -/

namespace ResultResponse

variable {mem : List UInt8}

/-- The column specs read back as definitions with the same names and types, and the reader
stops after the last. -/
lemma decodeColumns_encode (global : Bool) :
    ∀ (columns : List ColumnSpec) (i : Nat) (pos : Int),
      BigEndian.BytesAt mem pos (columns.flatMap (ColumnSpec.encode global)) →
      (∀ c ∈ columns, c.WellFormed) →
      ∃ defs, decodeColumns mem global columns.length i pos =
          some (pos + (columns.flatMap (ColumnSpec.encode global)).length, defs) ∧
        defs.map (fun d => d.name.toBytes mem) = columns.map (fun c => some c.name) ∧
        defs.map ColumnDefinition.dataType = columns.map (fun c => c.type.toDataType)
  | [], _, pos, _, _ => ⟨[], by simp [decodeColumns], rfl, rfl⟩
  | c :: columns, i, pos, hat, hwf => by
    obtain ⟨hks, htn, hname, htype⟩ := hwf c List.mem_cons_self
    have hrest : ∀ c' ∈ columns, c'.WellFormed := fun c' hc' => hwf c' (List.mem_cons_of_mem c hc')
    simp only [List.flatMap_cons, ColumnSpec.encode, List.append_assoc] at hat
    cases global with
    | true =>
      simp only [if_true, List.nil_append] at hat
      obtain ⟨hn, hat⟩ := hat.split
      obtain ⟨ht, hat⟩ := hat.split
      obtain ⟨hn₁, hn₂⟩ := decodeStringAt_of_bytesAt hname hn
      have ht₁ := OptionType.decode_of_bytesAt ht htype (OptionType.depth_le_of_bytesAt ht)
      obtain ⟨defs, hdefs, hnames, htypes⟩ := decodeColumns_encode true columns (i + 1) _ hat hrest
      refine ⟨⟨i, .empty, .empty, ⟨pos + 2, c.name.length⟩, c.type.toDataType⟩ :: defs, ?_,
        by simp [hn₂, hnames], by simp [htypes]⟩
      simp only [List.length_cons, decodeColumns, if_true, Option.bind_eq_bind, Option.pure_def,
        Option.bind_some, hn₁, ht₁, hdefs, List.flatMap_cons, List.length_append, ColumnSpec.encode,
        List.length_nil, Nat.cast_add, Nat.cast_zero]
      congr 2
      omega
    | false =>
      simp only [Bool.false_eq_true, if_false, List.append_assoc] at hat
      obtain ⟨hk, hat⟩ := hat.split
      obtain ⟨htb, hat⟩ := hat.split
      obtain ⟨hn, hat⟩ := hat.split
      obtain ⟨ht, hat⟩ := hat.split
      obtain ⟨hk₁, -⟩ := decodeStringAt_of_bytesAt hks hk
      obtain ⟨htb₁, -⟩ := decodeStringAt_of_bytesAt htn htb
      obtain ⟨hn₁, hn₂⟩ := decodeStringAt_of_bytesAt hname hn
      have ht₁ := OptionType.decode_of_bytesAt ht htype (OptionType.depth_le_of_bytesAt ht)
      obtain ⟨defs, hdefs, hnames, htypes⟩ := decodeColumns_encode false columns (i + 1) _ hat hrest
      refine ⟨⟨i, ⟨pos + 2, c.keyspace.length⟩,
        ⟨pos + (encodeStringValue c.keyspace).length + 2, c.table.length⟩,
        ⟨pos + (encodeStringValue c.keyspace).length + (encodeStringValue c.table).length + 2,
          c.name.length⟩, c.type.toDataType⟩ :: defs, ?_, by simp [hn₂, hnames], by simp [htypes]⟩
      simp only [List.length_cons, decodeColumns, Bool.false_eq_true, if_false, Option.bind_eq_bind,
        Option.pure_def, Option.bind_some, hk₁, htb₁, hn₁, ht₁, hdefs, List.flatMap_cons,
        List.length_append, ColumnSpec.encode, Nat.cast_add]
      congr 2
      omega

/-- What reading the metadata of rows leaves as it was. -/
structure Keeps (r r' : ResultResponse) : Prop where
  protocolVersion : r'.protocolVersion = r.protocolVersion
  metadata : r'.metadata = r.metadata
  firstRow : r'.firstRow = r.firstRow

lemma Keeps.trans {r r' r'' : ResultResponse} (h : Keeps r r') (h' : Keeps r' r'') : Keeps r r'' :=
  ⟨h'.1.trans h.1, h'.2.trans h.2, h'.3.trans h.3⟩

variable {b : RowsBody} {pos : Int} {r : ResultResponse}

lemma decodePagingState_encode (hwf : b.WellFormed)
    (hat : BigEndian.BytesAt mem pos b.encodePagingState) :
    ∃ r', decodePagingState mem b.flags pos r = some (pos + b.encodePagingState.length, r') ∧
      Keeps r r' ∧ r'.hasMorePages = b.pagingState.isSome ∧
      ∀ p, b.pagingState = some p → r'.pagingState.bind (StringRef.toBytes mem) = some p := by
  rw [decodePagingState, b.hasFlag_flags.2.1]
  unfold RowsBody.encodePagingState at hat ⊢
  cases hp : b.pagingState with
  | none => exact ⟨{ r with hasMorePages := false }, by simp, ⟨rfl, rfl, rfl⟩, rfl, by simp⟩
  | some p =>
    rw [hp, Option.map_some, Option.getD_some] at hat
    obtain ⟨h₁, h₂⟩ := decodeBytesAt_of_bytesAt (hwf.pagingState p hp) hat
    refine ⟨{ r with hasMorePages := true, pagingState := some ⟨pos + 4, p.length⟩ }, by simp [h₁],
      ⟨rfl, rfl, rfl⟩, rfl, ?_⟩
    rintro _ ⟨⟩
    simpa using h₂

lemma decodeGlobalTableSpec_encode (hwf : b.WellFormed)
    (hat : BigEndian.BytesAt mem pos b.encodeGlobalTableSpec) :
    ∃ r', decodeGlobalTableSpec mem b.globalTableSpec.isSome pos r =
      some (pos + b.encodeGlobalTableSpec.length, r') ∧ Keeps r r' ∧
        r'.hasMorePages = r.hasMorePages ∧ r'.pagingState = r.pagingState := by
  unfold RowsBody.encodeGlobalTableSpec at hat ⊢
  cases hg : b.globalTableSpec with
  | none => exact ⟨r, by simp [decodeGlobalTableSpec], ⟨rfl, rfl, rfl⟩, rfl, rfl⟩
  | some kt =>
    obtain ⟨k, t⟩ := kt
    obtain ⟨hks, hts⟩ := hwf.globalTableSpec k t hg
    rw [hg, Option.map_some, Option.getD_some] at hat
    obtain ⟨hk, ht⟩ := hat.split
    obtain ⟨hk₁, -⟩ := decodeStringAt_of_bytesAt hks hk
    obtain ⟨ht₁, -⟩ := decodeStringAt_of_bytesAt hts ht
    refine ⟨{ r with
      keyspace := ⟨pos + 2, k.length⟩
      table := ⟨pos + (encodeStringValue k).length + 2, t.length⟩ }, ?_, ⟨rfl, rfl, rfl⟩, rfl,
      rfl⟩
    simp only [decodeGlobalTableSpec, Option.isSome_some, if_true, Option.bind_eq_bind, hk₁,
      Option.bind_some, ht₁, Option.pure_def, Option.map_some, Option.getD_some, List.length_append,
      Nat.cast_add]
    rw [Int.add_assoc]

lemma decodeColumnSpecs_encode (hwf : b.WellFormed)
    (hat : BigEndian.BytesAt mem pos b.encodeColumnSpecs) :
    ∃ r' metadata, decodeColumnSpecs mem b.flags b.columns.length pos r =
        some (pos + b.encodeColumnSpecs.length, r', metadata) ∧ Keeps r r' ∧
      r'.hasMorePages = r.hasMorePages ∧ r'.pagingState = r.pagingState ∧
      (b.noMetadata = true → metadata = none) ∧
      (b.noMetadata = false → ∃ defs, metadata = some defs ∧
        defs.map (fun d => d.name.toBytes mem) = b.columns.map (fun c => some c.name) ∧
        defs.map ColumnDefinition.dataType = b.columnTypes) := by
  obtain ⟨hglobal, -, hnoMetadata, -⟩ := b.hasFlag_flags
  rw [decodeColumnSpecs, hnoMetadata, hglobal]
  unfold RowsBody.encodeColumnSpecs at hat ⊢
  cases hn : b.noMetadata with
  | true => exact ⟨r, none, by simp, ⟨rfl, rfl, rfl⟩, rfl, rfl, fun _ => rfl, by simp⟩
  | false =>
    rw [hn, if_neg Bool.false_ne_true] at hat
    obtain ⟨hspec, hcolumns⟩ := hat.split
    obtain ⟨r', hr', hkeep, hmore, hpaging⟩ := decodeGlobalTableSpec_encode (r := r) hwf hspec
    obtain ⟨defs, hdefs, hnames, htypes⟩ :=
      decodeColumns_encode _ b.columns 0 _ hcolumns hwf.columns
    refine ⟨r', some defs, ?_, hkeep, hmore, hpaging, by simp, fun _ => ⟨defs, rfl, hnames, htypes⟩⟩
    simp only [Bool.false_eq_true, if_false, Option.bind_eq_bind, hr', Option.bind_some,
      Int.toNat_natCast, hdefs, Option.pure_def, List.length_append, Nat.cast_add, Int.add_assoc]
    rw [if_neg (by omega)]

lemma decodeMetadata_encode (version : Int) (hwf : b.WellFormed)
    (hat : BigEndian.BytesAt mem pos b.encodeMetadata) :
    ∃ r' metadata, decodeMetadata version mem pos r false =
        some (pos + b.encodeMetadata.length, r', metadata) ∧ Keeps r r' ∧
      r'.hasMorePages = b.pagingState.isSome ∧
      (∀ p, b.pagingState = some p → r'.pagingState.bind (StringRef.toBytes mem) = some p) ∧
      (b.noMetadata = true → metadata = none) ∧
      (b.noMetadata = false → ∃ defs, metadata = some defs ∧
        defs.map (fun d => d.name.toBytes mem) = b.columns.map (fun c => some c.name) ∧
        defs.map ColumnDefinition.dataType = b.columnTypes) := by
  obtain ⟨hflo, hfhi⟩ := b.flags_bounds
  have hcount := hwf.columnCount
  unfold RowsBody.encodeMetadata at hat
  obtain ⟨hf, hat⟩ := hat.split
  obtain ⟨hc, hat⟩ := hat.split
  obtain ⟨hp, hat⟩ := hat.split
  have hf₁ := decodeInt32At_of_bytesAt (by omega) (by omega) hf
  have hc₁ := decodeInt32At_of_bytesAt (by omega) (by omega) hc
  obtain ⟨r₁, hr₁, hkeep₁, hmore, hpaging⟩ := decodePagingState_encode (r := r) hwf hp
  obtain ⟨r₂, metadata, hr₂, hkeep₂, hmore₂, hpaging₂, hnone, hsome⟩ :=
    decodeColumnSpecs_encode (r := r₁) hwf hat
  refine ⟨r₂, metadata, ?_, hkeep₁.trans hkeep₂, hmore₂.trans hmore, hpaging₂ ▸ hpaging, hnone, hsome⟩
  · have hend : pos + (b.encodeMetadata.length : Int) =
        pos + (BigEndian.encodeInt 4 b.flags).length +
          (BigEndian.encodeInt 4 b.columns.length).length + b.encodePagingState.length +
          b.encodeColumnSpecs.length := by
      simp only [RowsBody.encodeMetadata, List.length_append, Nat.cast_add]
      omega
    rw [hend]
    simp only [decodeMetadata, hf₁, hc₁, Option.bind_eq_bind, Option.bind_some,
      supportsResultMetadataId, Bool.false_eq_true, if_false, Option.pure_def, hr₁, hr₂]

/-- The `Value` constructor succeeds over a cell's bytes: only a collection reads its count, from
the first bytes of the cell. -/
lemma make_of_bytesAt {type : DataType} {bytes : List UInt8} (version : Int)
    (hnil : type.isNil = false) (hcount : type.isCollection = true → bytes ≠ [] → 4 ≤ bytes.length)
    (h : BigEndian.BytesAt mem pos bytes) :
    ∃ v, Value.make mem version type pos bytes.length = some v := by
  by_cases hcoll : type.isCollection = true ∧ bytes ≠ []
  · obtain ⟨hc, hne⟩ := hcoll
    have h4 := hcount hc hne
    have h₄ := (h.take 4).slice_eq
    have h₂ := (h.take 2).slice_eq
    rw [List.length_take, min_eq_left h4] at h₄
    rw [List.length_take, min_eq_left (by omega)] at h₂
    obtain ⟨⟨data, count⟩, hsize⟩ : ∃ r, decodeSize version mem pos = some r := by
      unfold decodeSize decodeInt32 decodeUint16
      split <;> simp [h₄, h₂]
    exact ⟨_, Value.make_of_isCollection hc (by simpa [List.length_pos_iff] using hne) hsize⟩
  · have hsize : ¬((bytes.length : Int) > 0 ∧ type.isCollection = true) := by
      rintro ⟨hpos, hc⟩
      exact hcoll ⟨hc, List.ne_nil_of_length_pos (by omega)⟩
    cases type with
    | nil => simp [DataType.isNil] at hnil
    | _ => exact ⟨_, by simp only [Value.make]; rw [if_neg hsize]⟩

/-- A row's cells read back, each as the value of its column's type over its bytes. -/
lemma decodeRow_encode (version : Int) :
    ∀ {types : List DataType} {cells : List (Option (List UInt8))} {pos : Int},
      List.Forall₂ CellWellFormed types cells → (∀ t ∈ types, t.isNil = false) →
      BigEndian.BytesAt mem pos (cells.flatMap encodeCell) →
      ∃ values, decodeRow mem version types pos =
          some (values, pos + (cells.flatMap encodeCell).length) ∧
        RowDecoded mem version types cells values := by
  intro types cells pos hcells
  -- one cell at a time: the induction is on the row's cells against its column types
  induction hcells generalizing pos with
  | nil =>
    intro _ _
    exact ⟨[], by rw [decodeRow, List.flatMap_nil, List.length_nil, Nat.cast_zero, Int.add_zero],
      trivial⟩
  | @cons type cell types cells hcell hcells ih =>
    intro hnil hat
    have hnil' : ∀ t ∈ types, t.isNil = false := fun t ht => hnil t (List.mem_cons_of_mem _ ht)
    rw [List.flatMap_cons] at hat
    obtain ⟨hc, hat⟩ := hat.split
    cases cell with
    | none =>
      have hsize := decodeInt32_of_bytesAt (by omega) (by omega) hc
      rw [encodeCell, BigEndian.length_encodeInt] at hat
      obtain ⟨values, hrow, hdecoded⟩ := ih hnil' hat
      refine ⟨Value.null type :: values, ?_, rfl, hdecoded⟩
      have hend : pos + ((List.flatMap encodeCell (none :: cells)).length : Int) =
          pos + 4 + (List.flatMap encodeCell cells).length := by
        simp only [List.flatMap_cons, encodeCell, List.length_append, BigEndian.length_encodeInt,
          Nat.cast_add]
        omega
      simp only [Nat.cast_ofNat] at hrow
      rw [hend]
      simp only [decodeRow, hsize, Option.bind_eq_bind, Option.bind_some,
        if_neg (show ¬((-1 : Int) ≥ 0) by omega), hrow]
    | some bytes =>
      obtain ⟨hlen, hcount⟩ := hcell
      obtain ⟨hs, hb⟩ := hc.split
      have hsize := decodeInt32_of_bytesAt (by omega) (by omega) hs
      rw [BigEndian.length_encodeInt] at hb
      obtain ⟨v, hv⟩ := make_of_bytesAt version (hnil type List.mem_cons_self) hcount hb
      have hpos : pos + ((encodeCell (some bytes)).length : Int) = pos + (4 : Nat) + bytes.length := by
        simp only [encodeCell, encodeBytesValue, List.length_append, BigEndian.length_encodeInt,
          Nat.cast_add]
        omega
      rw [hpos] at hat
      obtain ⟨values, hrow, hdecoded⟩ := ih hnil' hat
      refine ⟨v :: values, ?_, ⟨_, hb.slice_eq, hv⟩, hdecoded⟩
      have hend : pos + ((List.flatMap encodeCell (some bytes :: cells)).length : Int) =
          pos + 4 + bytes.length + (List.flatMap encodeCell cells).length := by
        rw [List.flatMap_cons, List.length_append, Nat.cast_add, ← Int.add_assoc, hpos]
        rfl
      simp only [Nat.cast_ofNat] at hv hrow
      rw [hend]
      simp only [decodeRow, hsize, Option.bind_eq_bind, Option.bind_some,
        if_pos (show (bytes.length : Int) ≥ 0 by omega), hv, hrow]

/-- `decode_first_row` sets the first row and where the next one starts, and nothing else. -/
lemma decodeFirstRow_frame {r' : ResultResponse} (h : decodeFirstRow mem r = some r') :
    r' = { r with firstRow := r'.firstRow, rows := r'.rows } := by
  unfold decodeFirstRow at h
  split at h
  · split at h
    · obtain ⟨⟨firstRow, rows⟩, -, h⟩ := Option.bind_eq_some_iff.1 h
      cases h
      rfl
    · cases h
      rfl
  · cases h
    rfl

/-- From a row on, the iterator decodes each remaining row where the last one ended, and `next`
returns false once they are all read. -/
lemma pass_encodeRows (hnil : ∀ t ∈ r.columnTypes, t.isNil = false) :
    ∀ (rows : List (List (Option (List UInt8)))) (it : ResultIterator) (fuel : Nat),
      (∀ row ∈ rows, List.Forall₂ CellWellFormed r.columnTypes row) →
      BigEndian.BytesAt mem it.position (encodeRows rows) →
      0 ≤ it.index → it.index + 1 + rows.length = r.rowCount → rows.length < fuel →
      ∃ out, ResultIterator.pass mem r fuel it = some out ∧
        List.Forall₂ (RowDecoded mem r.protocolVersion r.columnTypes) rows out
  | _, _, 0, _, _, _, _, hfuel => absurd hfuel (Nat.not_lt_zero _)
  | [], it, fuel + 1, _, _, _, hcount, _ => by
    have hdone : it.index + 1 ≥ r.rowCount := by
      rw [← hcount]
      simp
    refine ⟨[], ?_, .nil⟩
    simp [ResultIterator.pass, ResultIterator.next, hdone]
  | row :: rows, it, fuel + 1, hwf, hat, hindex, hcount, hfuel => by
    rw [encodeRows, List.flatMap_cons] at hat
    obtain ⟨hrow, hat⟩ := hat.split
    obtain ⟨values, hdecode, hdecoded⟩ :=
      decodeRow_encode r.protocolVersion (hwf row List.mem_cons_self) hnil hrow
    have hmore : ¬(it.index + 1 ≥ r.rowCount) := by
      rw [← hcount]
      simp
    obtain ⟨out, hpass, hout⟩ := pass_encodeRows hnil rows
      ⟨it.index + 1, it.position + (row.flatMap encodeCell).length, values⟩ fuel
      (fun row' h => hwf row' (List.mem_cons_of_mem _ h)) hat (by simp only; omega)
      (by simp only [List.length_cons, Nat.cast_add, Nat.cast_one] at hcount ⊢; omega)
      (by simp only [List.length_cons] at hfuel; omega)
    refine ⟨values :: out, ?_, .cons hdecoded hout⟩
    simp only [ResultIterator.pass, ResultIterator.next, if_neg hmore,
      if_pos (show it.index + 1 > 0 by omega), hdecode, Option.bind_eq_bind, Option.bind_some,
      Option.pure_def, if_true, hpass, ResultIterator.row]

/-- With its metadata, a response decodes its first row, and a pass of the iterator gives every
row. -/
lemma rows_decodeFirstRow {defs : List ColumnDefinition} {rows : List (List (Option (List UInt8)))}
    (hmetadata : r.metadata = some defs) (hfirst : r.firstRow = [])
    (hcount : r.rowCount = rows.length) (hnil : ∀ t ∈ r.columnTypes, t.isNil = false)
    (hwf : ∀ row ∈ rows, List.Forall₂ CellWellFormed r.columnTypes row)
    (hat : BigEndian.BytesAt mem r.rows (encodeRows rows)) :
    ∃ r' out, decodeFirstRow mem r = some r' ∧ ResultIterator.rows mem r' = some out ∧
      List.Forall₂ (RowDecoded mem r.protocolVersion r.columnTypes) rows out := by
  have htypes : defs.map ColumnDefinition.dataType = r.columnTypes := by
    simp [columnTypes, hmetadata]
  cases rows with
  | nil =>
    refine ⟨r, [], by simp [decodeFirstRow, hmetadata, hcount], ?_, .nil⟩
    simp [ResultIterator.rows, ResultIterator.pass, ResultIterator.next, ResultIterator.new, hcount]
  | cons row rows =>
    rw [encodeRows, List.flatMap_cons] at hat
    obtain ⟨hrow, hat⟩ := hat.split
    obtain ⟨values, hdecode, hdecoded⟩ :=
      decodeRow_encode r.protocolVersion (hwf row List.mem_cons_self) hnil hrow
    -- the response once its first row is decoded
    let r' : ResultResponse :=
      { r with firstRow := values, rows := r.rows + (row.flatMap encodeCell).length }
    obtain ⟨out, hpass, hout⟩ := pass_encodeRows (r := r') hnil rows ⟨0, r'.rows, []⟩
      (rows.length + 1) (fun row' h => hwf row' (List.mem_cons_of_mem _ h)) hat le_rfl
      (by simp [r', hcount]; omega) (Nat.lt_succ_self _)
    refine ⟨r', values :: out, ?_, ?_, .cons hdecoded hout⟩
    · simp [decodeFirstRow, hmetadata, hcount, hfirst, htypes, hdecode, r']
    · have hfuel : r'.rowCount.toNat + 1 = rows.length + 1 + 1 := by
        simp [r', hcount]
      -- the first call of next moves to the first row, which the response holds
      have hnext : ResultIterator.next mem r' (ResultIterator.new r') =
          some (true, ⟨0, r'.rows, []⟩) := by
        have hlt : ¬((ResultIterator.new r').index + 1 ≥ r'.rowCount) := by
          simp only [ResultIterator.new, r', hcount, List.length_cons]
          omega
        have hneg : ¬((ResultIterator.new r').index + 1 > 0) := by
          simp [ResultIterator.new]
        rw [ResultIterator.next, if_neg hlt, if_neg hneg]
        rfl
      rw [ResultIterator.rows, hfuel, ResultIterator.pass, hnext]
      simp only [Option.bind_eq_bind, Option.bind_some, if_true, hpass, Option.pure_def,
        ResultIterator.row, if_neg (lt_irrefl (0 : Int))]
      rfl

/-- A rows body laid out as the protocol has it reads back: the paging state, the names and the
types of the columns, and, after `set_metadata` where the body leaves the metadata out, every
row, each cell as the value of its column's type over its bytes. -/
theorem decode_encodeRows {pre rest : List UInt8} {b : RowsBody} (version : Int)
    (defs : List ColumnDefinition) (hwf : b.WellFormed) (hmem : mem = pre ++ b.encode ++ rest)
    (hdefs : b.noMetadata = true → defs.map ColumnDefinition.dataType = b.columnTypes) :
    ∃ r, decode version mem pre.length b.encode.length = some (true, r) ∧
      r.hasMorePages = b.pagingState.isSome ∧
      (∀ p, b.pagingState = some p → r.pagingState.bind (StringRef.toBytes mem) = some p) ∧
      (b.noMetadata = false → ∃ defs', r.metadata = some defs' ∧
        defs'.map (fun d => d.name.toBytes mem) = b.columns.map (fun c => some c.name) ∧
        defs'.map ColumnDefinition.dataType = b.columnTypes) ∧
      ∃ r' rows, (if b.noMetadata then setMetadata mem r defs else some r) = some r' ∧
        ResultIterator.rows mem r' = some rows ∧
        List.Forall₂ (RowDecoded mem version b.columnTypes) b.rows rows := by
  have hat : BigEndian.BytesAt mem pre.length b.encode := ⟨pre, rest, hmem, rfl⟩
  unfold RowsBody.encode at hat
  obtain ⟨hkind, hat⟩ := hat.split
  obtain ⟨hmetadata, hat⟩ := hat.split
  obtain ⟨hcount, hrows⟩ := hat.split
  have hkind₁ := decodeInt32At_of_bytesAt (by decide) (by decide) hkind
  have hcount₁ := decodeInt32At_of_bytesAt (by omega) (by have := hwf.rowCount; omega) hcount
  obtain ⟨r₁, metadata, hr₁, hkeep, hmore, hpaging, hnone, hsome⟩ :=
    decodeMetadata_encode (r := { protocolVersion := version, kind := resultKindRows }) version
      hwf hmetadata
  -- the response with its metadata and row count, before its first row
  let r₂ : ResultResponse := { r₁ with
    metadata := metadata.or r₁.metadata
    rows := pre.length + (BigEndian.encodeInt 4 resultKindRows).length + b.encodeMetadata.length +
      (BigEndian.encodeInt 4 b.rows.length).length
    rowCount := b.rows.length }
  have hdecode : decode version mem pre.length b.encode.length =
      (decodeFirstRow mem r₂).map ((true, ·)) := by
    simp only [decode, hkind₁, Option.bind_eq_bind, Option.bind_some,
      if_neg (show resultKindRows ≠ resultKindVoid by decide), if_true, decodeRows, hr₁, hcount₁]
    rfl
  have hnil : ∀ t ∈ b.columnTypes, t.isNil = false := by
    simp [RowsBody.columnTypes, OptionType.toDataType_isNil]
  cases hn : b.noMetadata with
  | false =>
    obtain ⟨defs', rfl, hnames, htypes⟩ := hsome hn
    have htypes₂ : r₂.columnTypes = b.columnTypes := by
      simp [columnTypes, r₂, htypes]
    obtain ⟨r', out, hr', hrows', hout⟩ := rows_decodeFirstRow (r := r₂)
      (show r₂.metadata = some defs' by simp [r₂]) (by simp [r₂, hkeep.firstRow]) rfl (htypes₂ ▸ hnil) (htypes₂ ▸ hwf.cells)
      hrows
    have hframe := decodeFirstRow_frame hr'
    refine ⟨r', by rw [hdecode, hr']; rfl, ?_, ?_, fun _ => ⟨defs', ?_, hnames, htypes⟩,
      r', out, rfl, hrows', ?_⟩
    · rw [hframe]
      exact hmore
    · rw [hframe]
      exact hpaging
    · rw [hframe]
      rfl
    · rw [← htypes₂]
      simpa [r₂, hkeep.protocolVersion] using hout
  | true =>
    have hnone₂ := hnone hn
    have hmeta₁ : r₁.metadata = none := hkeep.metadata
    have hr₂ : decodeFirstRow mem r₂ = some r₂ := by
      simp [decodeFirstRow, r₂, hnone₂, hmeta₁]
    -- the response as `set_metadata` leaves it before decoding the first row
    let r₃ : ResultResponse := { r₂ with metadata := some defs }
    have htypes₃ : r₃.columnTypes = b.columnTypes := by
      simp [columnTypes, r₃, hdefs hn]
    obtain ⟨r', out, hr', hrows', hout⟩ := rows_decodeFirstRow (r := r₃) rfl
      (by simp [r₃, r₂, hkeep.firstRow]) rfl (htypes₃ ▸ hnil) (htypes₃ ▸ hwf.cells) hrows
    refine ⟨r₂, by rw [hdecode, hr₂]; rfl, hmore, hpaging, nofun, r', out, hr', hrows', ?_⟩
    rw [← htypes₃]
    simpa [r₃, r₂, hkeep.protocolVersion] using hout

/-- One column `c` of type `int` in table `k.t`, and one row holding the `int` 7. -/
def intRowsBody : RowsBody :=
  ⟨none, none, false, [⟨[107], [116], [99], .simple .int⟩], [[some [0, 0, 0, 7]]]⟩

theorem decode_encodeRows_intRows :
    intRowsBody.WellFormed ∧
      ∃ r, decode 4 intRowsBody.encode 0 intRowsBody.encode.length = some (true, r) ∧
        r.hasMorePages = intRowsBody.pagingState.isSome ∧
        (∀ p, intRowsBody.pagingState = some p →
          r.pagingState.bind (StringRef.toBytes intRowsBody.encode) = some p) ∧
        (intRowsBody.noMetadata = false → ∃ defs', r.metadata = some defs' ∧
          defs'.map (fun d => d.name.toBytes intRowsBody.encode) =
            intRowsBody.columns.map (fun c => some c.name) ∧
          defs'.map ColumnDefinition.dataType = intRowsBody.columnTypes) ∧
        ∃ r' rows, (if intRowsBody.noMetadata then setMetadata intRowsBody.encode r []
            else some r) = some r' ∧
          ResultIterator.rows intRowsBody.encode r' = some rows ∧
          List.Forall₂ (RowDecoded intRowsBody.encode 4 intRowsBody.columnTypes)
            intRowsBody.rows rows :=
  have hwf : intRowsBody.WellFormed :=
    ⟨nofun, nofun, by simp [intRowsBody, ColumnSpec.WellFormed, OptionType.WellFormed]; rfl, by decide,
      by decide, by simp [intRowsBody, RowsBody.columnTypes, CellWellFormed]⟩
  ⟨hwf, @decode_encodeRows intRowsBody.encode [] [] intRowsBody 4 [] hwf (by simp) nofun⟩

/-! ### Where the cells of a row lie -/

/-- A value built over bytes ends where they end; a collection starts after its count. -/
lemma make_span {version data size : Int} {type : DataType} {v : Value}
    (h : Value.make mem version type data size = some v) :
    data ≤ v.data ∧ v.data + v.size = data + size := by
  cases type with
  | nil => simp [Value.make] at h
  | _ =>
    simp only [Value.make] at h
    split at h
    · obtain ⟨⟨data', count⟩, hcount, rfl⟩ := Option.map_eq_some_iff.1 h
      unfold decodeSize at hcount
      split at hcount <;>
        · obtain ⟨_, -, h'⟩ := Option.map_eq_some_iff.1 hcount
          cases h'
          simp only
          split <;> omega
    · cases h
      exact ⟨le_rfl, rfl⟩

/-- `decode_row` reads a row from `pos` to the position it returns, and the bytes of every value
it builds lie in between: the cells of a row lie inside a body when the row ends inside it, and
nothing else bounds them. -/
theorem decodeRow_span (version : Int) :
    ∀ {types : List DataType} {pos pos' : Int} {values : List Value},
      decodeRow mem version types pos = some (values, pos') →
      pos ≤ pos' ∧ ∀ v ∈ values, 0 ≤ v.size → pos + 4 ≤ v.data ∧ v.data + v.size ≤ pos'
  | [], pos, pos', values, h => by
    simp only [decodeRow, Option.some.injEq, Prod.mk.injEq] at h
    obtain ⟨rfl, rfl⟩ := h
    simp
  | type :: types, pos, pos', values, h => by
    simp only [decodeRow, Option.bind_eq_bind] at h
    obtain ⟨size, -, h⟩ := Option.bind_eq_some_iff.1 h
    split at h
    · -- a value over the cell's bytes, then the rest of the row after them
      obtain ⟨v, hv, h⟩ := Option.bind_eq_some_iff.1 h
      obtain ⟨⟨vs, p⟩, hrow, h⟩ := Option.bind_eq_some_iff.1 h
      cases h
      obtain ⟨hle, hvs⟩ := decodeRow_span version hrow
      obtain ⟨hdata, hend⟩ := make_span hv
      refine ⟨by omega, ?_⟩
      rintro w (_ | ⟨_, hw⟩) hsize
      · omega
      · obtain ⟨h₁, h₂⟩ := hvs w hw hsize
        omega
    · -- a null value, then the rest of the row after its size
      obtain ⟨⟨vs, p⟩, hrow, h⟩ := Option.bind_eq_some_iff.1 h
      cases h
      obtain ⟨hle, hvs⟩ := decodeRow_span version hrow
      refine ⟨by omega, ?_⟩
      rintro w (_ | ⟨_, hw⟩) hsize
      · simp [Value.null] at hsize
      · obtain ⟨h₁, h₂⟩ := hvs w hw hsize
        omega

/-- A body that ends right after the size of its one cell decodes, and the cell's 100 bytes lie
past the body's 28, where reading them reads outside the body. -/
theorem decode_cellPastBody :
    (decode 4 [0, 0, 0, 2, 0, 0, 0, 0, 0, 0, 0, 1, 0, 0, 0, 0, 0, 0, 0, 9, 0, 0, 0, 1, 0, 0, 0, 100]
        0 28).map (fun x => (x.1, x.2.firstRow.map fun v => (v.data, v.size))) =
      some (true, [(28, 100)]) ∧
    BigEndian.slice
      [0, 0, 0, 2, 0, 0, 0, 0, 0, 0, 0, 1, 0, 0, 0, 0, 0, 0, 0, 9, 0, 0, 0, 1, 0, 0, 0, 100]
      28 100 = none := by
  decide

/-- A v5 body flagged `METADATA_CHANGED`, with its `new_metadata_id` (empty) before one column
`c` of type `int` and one row: the id is not read, so its two bytes are taken for the column's
keyspace, and everything after is read two bytes early. The column's type is read from the
length of its name, and the row count from the name and the type. -/
theorem decode_metadataChanged :
    (decode 5 [0, 0, 0, 2, 0, 0, 0, 8, 0, 0, 0, 1, 0, 0, 0, 0, 0, 0, 0, 1, 99, 0, 9, 0, 0, 0, 1,
        0, 0, 0, 4, 0, 0, 0, 7] 0 35).map
        (fun x => (x.1, x.2.columnTypes.map DataType.valueType, x.2.rowCount)) =
      some (true, [.ascii], 1660946688) := by
  decide

end ResultResponse

end CassandraDriver
