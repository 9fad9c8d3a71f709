import CassandraDriver.Value.Basic

/-!
# Collections on the wire

The encoder of `Collection` (`collection.hpp`, `collection.cpp`) and the two iterators that
read a collection value back, `CollectionIterator` (`collection_iterator.cpp`) and
`MapIterator` (`map_iterator.cpp`).

A `Collection` keeps its items already encoded. It writes them as `[int count]` followed by
each item as `[int size][bytes]` (from protocol version 3 on; `short` sizes before), into a
`Buffer` it allocates with the size it computed beforehand; the bytes written are the list
returned here, and the size computed is a separate function. The iterators walk a value's
bytes with a position that they move by the sizes they read.
-/

namespace CassandraDriver

/-- `Collection`: the value type of its data type (list, set or map) and its encoded items. -/
structure Collection where
  type : ValueType
  items : List (List UInt8)

namespace Collection

/-- `Collection::get_count`: the number of items, of pairs for a map. -/
def getCount (c : Collection) : Nat :=
  if c.type = .map then c.items.length / 2 else c.items.length

/-- `Collection::get_items_size(num_bytes_for_size)`. -/
def getItemsSize (c : Collection) (numBytesForSize : Nat) : Nat :=
  c.items.foldl (fun size i => size + numBytesForSize + i.length) 0

/-- `Collection::encode_items_int32`: each item as `[int size][bytes]`. -/
def encodeItemsInt32 (c : Collection) : List UInt8 :=
  c.items.flatMap fun i => BigEndian.encode 4 i.length ++ i

/-- `Collection::encode_items_uint16`: each item as `[short size][bytes]`. -/
def encodeItemsUint16 (c : Collection) : List UInt8 :=
  c.items.flatMap fun i => BigEndian.encode 2 i.length ++ i

/-- `Collection::get_size_with_length`. -/
def getSizeWithLength (c : Collection) (version : Int) : Nat :=
  4 + if version ≥ 3 then 4 + c.getItemsSize 4 else 2 + c.getItemsSize 2

/-- `Collection::encode`: inner collections always use the `int` sizes of version 3. -/
def encode (c : Collection) : List UInt8 :=
  BigEndian.encode 4 c.getCount ++ c.encodeItemsInt32

/-- `Collection::encode_with_length`: the encoding behind its `[int]` length. -/
def encodeWithLength (c : Collection) (version : Int) : List UInt8 :=
  let internalSize := if version ≥ 3 then 4 + c.getItemsSize 4 else 2 + c.getItemsSize 2
  BigEndian.encode 4 internalSize ++
    if version ≥ 3 then BigEndian.encode 4 c.getCount ++ c.encodeItemsInt32
    else BigEndian.encode 2 c.getCount ++ c.encodeItemsUint16

/-- `Collection::append(CassNull)`: a null item is an empty buffer. -/
def appendNull (c : Collection) : Collection := { c with items := c.items ++ [[]] }

/-- `Collection::append(const Collection*)`: a nested collection is appended encoded. -/
def appendCollection (c inner : Collection) : Collection :=
  { c with items := c.items ++ [inner.encode] }

end Collection

/-- `CollectionIterator`: the collection value, the position of the next item, the index of
the current one, the number of items (twice the pairs of a map) and the current value. -/
structure CollectionIterator where
  collection : Value
  position : Int
  index : Int
  count : Int
  value : Value

namespace CollectionIterator

/-- `CollectionIterator(const Value* collection)`. -/
def new (collection : Value) : CollectionIterator where
  collection := collection
  position := collection.data
  index := -1
  count := if collection.valueType = .map then 2 * collection.count else collection.count
  value := .empty

/-- The type of the item at `index`: keys and values of a map alternate. -/
def itemDataType (collection : Value) (index : Int) : DataType :=
  if collection.valueType = .map then
    if index % 2 = 0 then collection.primaryDataType else collection.secondaryDataType
  else collection.primaryDataType

/-- `CollectionIterator::decode_value`: the item at `position`, and the position after it. -/
def decodeValue (mem : List UInt8) (it : CollectionIterator) (position : Int) :
    Option (Value × Int) := do
  let (buffer, size) ← decodeSize it.collection.protocolVersion mem position
  let value ← Value.make mem it.collection.protocolVersion
    (itemDataType it.collection it.index) buffer size
  some (value, buffer + size)

/-- `CollectionIterator::next`. -/
def next (mem : List UInt8) (it : CollectionIterator) : Option (Bool × CollectionIterator) :=
  if it.index + 1 ≥ it.count then some (false, it)
  else
    let it := { it with index := it.index + 1 }
    (it.decodeValue mem it.position).map fun (value, position) =>
      (true, { it with value, position })

/-- The values a loop `while (next()) value()` visits, with at most `fuel` turns. -/
def valuesAux (mem : List UInt8) : Nat → CollectionIterator → Option (List Value)
  | 0, _ => some []
  | fuel + 1, it => do
    let (more, it) ← it.next mem
    if more then (it.value :: ·) <$> valuesAux mem fuel it else some []

/-- The values a loop `while (next()) value()` visits: each turn raises the index towards the
count, so the loop turns fewer than `count - index` times. -/
def values (mem : List UInt8) (it : CollectionIterator) : Option (List Value) :=
  valuesAux mem (it.count - it.index).toNat it

end CollectionIterator

/-- `MapIterator`: the map value, the position of the next pair, the current key and value,
the index of the current pair and the number of pairs. -/
structure MapIterator where
  map : Value
  position : Int
  key : Value
  value : Value
  index : Int
  count : Int

namespace MapIterator

/-- `MapIterator(const Value* map)`. -/
def new (map : Value) : MapIterator :=
  ⟨map, map.data, .empty, .empty, -1, map.count⟩

/-- `MapIterator::decode_pair`: the pair at `position`, and the position after it. -/
def decodePair (mem : List UInt8) (it : MapIterator) (position : Int) :
    Option (Value × Value × Int) := do
  let (position, size) ← decodeSize it.map.protocolVersion mem position
  let key ← Value.make mem it.map.protocolVersion it.map.primaryDataType position size
  let (position, size) ← decodeSize it.map.protocolVersion mem (position + size)
  let value ← Value.make mem it.map.protocolVersion it.map.secondaryDataType position size
  some (key, value, position + size)

/-- `MapIterator::next`. -/
def next (mem : List UInt8) (it : MapIterator) : Option (Bool × MapIterator) :=
  if it.index + 1 ≥ it.count then some (false, it)
  else
    let it := { it with index := it.index + 1 }
    (it.decodePair mem it.position).map fun (key, value, position) =>
      (true, { it with key, value, position })

/-- The pairs a loop `while (next()) { key(); value(); }` visits, with at most `fuel` turns. -/
def pairsAux (mem : List UInt8) : Nat → MapIterator → Option (List (Value × Value))
  | 0, _ => some []
  | fuel + 1, it => do
    let (more, it) ← it.next mem
    if more then ((it.key, it.value) :: ·) <$> pairsAux mem fuel it else some []

/-- The pairs a loop over a `MapIterator` visits. -/
def pairs (mem : List UInt8) (it : MapIterator) : Option (List (Value × Value)) :=
  pairsAux mem (it.count - it.index).toNat it

end MapIterator

end CassandraDriver
