import CassandraDriver.Request.Statement

/-!
# Simple statements and their named values

A `QueryRequest` binds its values by position or by name. The first bind by name creates the
table of names `value_names_` and sets `CASS_QUERY_FLAG_NAMES_FOR_VALUES`; a name not in the
table is added with the next index, unless the table is already larger than the number of
values. `AbstractData::set(name, value)` then sets the element at each index the name has, and
`encode_values_with_names` writes the names in order, each followed by the element at its index.

The table is a `CaseInsensitiveHashTable`: a name looks up every entry equal to it up to ASCII
case, or, when it is quoted, every entry equal to it without the quotes. The entries keep their
insertion order and their index is their position; the hash index over them, its probing and
its resizing are not modelled.
-/

namespace CassandraDriver

/-! ### Names -/

/-- `std::toupper` on a byte, in the C locale. -/
def toUpperByte (b : UInt8) : UInt8 := if 97 ≤ b ∧ b ≤ 122 then b - 32 else b

/-- `StringRef::iequals`: equal up to ASCII case. -/
def iequalsBytes (a b : List UInt8) : Bool := a.map toUpperByte == b.map toUpperByte

/-- The double quote, `'"'`. -/
def quoteByte : UInt8 := 34

/-- A name between double quotes: `name.size() > 0 && name.front() == '"' && name.back() == '"'`. -/
def isQuoted (name : List UInt8) : Bool :=
  name.head? == some quoteByte && name.getLast? == some quoteByte

/-- `StringRef::substr(pos, length)`, which asserts that `pos` lies inside the string. -/
def substr (s : List UInt8) (pos length : Nat) : Option (List UInt8) :=
  if pos < s.length then some ((s.drop pos).take (min (s.length - pos) length)) else none

/-- `QueryRequest::ValueName`: a bound name. -/
structure ValueName where
  name : List UInt8

/-- The `[string]` buffer of a name, `buf(sizeof(uint16_t) + name.size())` written by
`encode_string` with the size as an `uint16_t`. -/
def ValueName.buf (v : ValueName) : Except EncodeError FixedBuffer :=
  (·.1) <$> Buffer.encodeString (FixedBuffer.alloc (2 + v.name.length)) 0 v.name
    (toUint16 v.name.length)

/-- `CaseInsensitiveHashTable<ValueName>`, by its entries. -/
structure ValueNameHashTable where
  entries : List ValueName

namespace ValueNameHashTable

/-- The positions of the entries that satisfy `p`, in order. -/
def indicesWhere (t : ValueNameHashTable) (p : ValueName → Bool) : List Nat :=
  (t.entries.zipIdx.filter fun e => p e.1).map (·.2)

/-- `get_indices`: a quoted name finds the entries equal to it without its quotes, any other
name the entries equal to it up to case. Stripping the quotes of the name `"` alone asserts. -/
def getIndices (t : ValueNameHashTable) (name : List UInt8) : Option (List Nat) :=
  if isQuoted name then do
    let name ← substr name 1 (name.length - 2)
    pure (t.indicesWhere fun e => e.name == name)
  else pure (t.indicesWhere fun e => iequalsBytes name e.name)

/-- `add`: the entry goes last, and its index is its position. -/
def add (t : ValueNameHashTable) (entry : ValueName) : Nat × ValueNameHashTable :=
  (t.entries.length, ⟨t.entries ++ [entry]⟩)

/-- `size` -/
def size (t : ValueNameHashTable) : Nat := t.entries.length

end ValueNameHashTable

/-! ### Values -/

/-- A value as the `set` overloads of `AbstractData` take it: null, a value already encoded
with its length (simple values, tuples and user types), or a collection. -/
inductive BoundValue
  | null
  | encoded (bytes : List UInt8)
  | collection (c : Collection)

/-- The element a value is stored as. -/
def BoundValue.toElement : BoundValue → Element
  | .null => .nul
  | .encoded bytes => .buffer bytes
  | .collection c => .collection c

/-- A `QueryRequest`: a simple statement and its table of names, created on the first bind by
name. -/
structure QueryRequest extends Statement where
  valueNames : Option ValueNameHashTable

namespace QueryRequest

/-- `QueryRequest(query, value_count)` -/
def new (query : List UInt8) (valueCount : Nat) : QueryRequest :=
  { Statement.ofQuery query valueCount with valueNames := none }

/-- `AbstractData::set(index, value)`: the index must be that of an element; no type is checked,
as `QueryRequest::get_type` is `DataType::NIL`; a map needs an even number of items. -/
def set (q : QueryRequest) (index : Nat) (value : BoundValue) : CassError × QueryRequest :=
  if index ≥ q.elements.length then (.libIndexOutOfBounds, q)
  else match value with
    | .collection c =>
      if c.type = .map ∧ c.items.length % 2 ≠ 0 then (.libInvalidItemCount, q)
      else (.ok, { q with elements := q.elements.set index (.collection c) })
    | value => (.ok, { q with elements := q.elements.set index value.toElement })

/-- The loop of `set(name, value)` over the indices of the name: it stops at the first error. -/
def setIndices (q : QueryRequest) (value : BoundValue) : List Nat → CassError × QueryRequest
  | [] => (.ok, q)
  | index :: rest =>
    match q.set index value with
    | (.ok, q) => q.setIndices value rest
    | (rc, q) => (rc, q)

/-- `QueryRequest::get_indices`: create the table on first use; a name it does not hold is added,
without its quotes, unless the table already holds more names than there are values. -/
def getIndices (q : QueryRequest) (name : List UInt8) : Option (List Nat × QueryRequest) := do
  let q : QueryRequest := match q.valueNames with
    | some _ => q
    | none => { q with hasNamesForValues := true, valueNames := some ⟨[]⟩ }
  let table := q.valueNames.getD ⟨[]⟩
  let indices ← table.getIndices name
  if indices.isEmpty then
    -- no more space left for new named values
    if table.size > q.elements.length then pure ([], q)
    else
      let name ← (if isQuoted name then substr name 1 (name.length - 2) else pure name)
      let (index, table) := table.add ⟨name⟩
      pure ([index], { q with valueNames := some table })
  else pure (indices, q)

/-- `AbstractData::set(name, value)`: every index of the name is set; `none` when an assertion
fails. -/
def setByName (q : QueryRequest) (name : List UInt8) (value : BoundValue) :
    Option (CassError × QueryRequest) := do
  let (indices, q) ← q.getIndices name
  if indices.isEmpty then pure (.libNameDoesNotExist, q)
  else pure (q.setIndices value indices)

/-! ### Encoding -/

/-- The loop of `encode_values_with_names` from the name at `index` on, with the size so far:
each name's buffer, then the buffer of the element at its index. -/
def encodeValuesWithNamesFrom (version : Int) (elements : List Element) :
    Nat → List ValueName → Int → List FixedBuffer → Except EncodeError (Int × List FixedBuffer)
  | _, [], size, bufs => pure (size, bufs)
  | index, valueName :: rest, size, bufs => do
    let nameBuf ← valueName.buf
    let element ← (match elements[index]? with
      | some element => pure element
      | none => .error (.elementOutOfRange index))
    let valueBuf ← element.getBuffer version
    encodeValuesWithNamesFrom version elements (index + 1) rest
      (size + nameBuf.size + valueBuf.length) (bufs ++ [nameBuf, FixedBuffer.ofBytes valueBuf])

/-- The names of the table; the flag `has_names_for_values` is set together with the table. -/
def names (q : QueryRequest) : List ValueName := (q.valueNames.map (·.entries)).getD []

/-- `encode_values_with_names`: `<name_1><value_1>...<name_n><value_n>`. -/
def encodeValuesWithNames (q : QueryRequest) (version : Int) (bufs : List FixedBuffer) :
    Except EncodeError (Int × List FixedBuffer) :=
  encodeValuesWithNamesFrom version q.elements 0 q.names 0 bufs

/-- `QueryRequest::encode` -/
def encode (q : QueryRequest) (version : Int) (callback : RequestCallback)
    (bufs : List FixedBuffer) : Except EncodeError (Int × List FixedBuffer) := do
  if version = 1 then q.encodeV1 callback bufs
  else
    let (length, bufs) := q.encodeQueryOrId bufs
    let (length, result, bufs) ← (if q.hasNamesForValues then do
        let (begin, bufs) ← q.encodeBegin version (toUint16 q.names.length) callback bufs
        let (result, bufs) ← q.encodeValuesWithNames version bufs
        pure (length + begin, result, bufs)
      else do
        let (begin, bufs) ← q.encodeBegin version (toUint16 q.elements.length) callback bufs
        let (result, bufs) ← q.encodeValues version bufs
        pure (length + begin, result, bufs))
    let (finish, bufs) ← q.encodeEnd version callback bufs
    pure (length + result + finish, bufs)

end QueryRequest

end CassandraDriver
