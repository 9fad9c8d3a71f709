import CassandraDriver.Value.Iterators
import CassandraDriver.Value.CollectionRoundTrip
import CassandraDriver.Request.FrameEncoding
import CassandraDriver.Request.QueryRequest

/-!
# Tuples and user type values: binding and encoding

`Tuple` and `AbstractData`, the base of `UserTypeValue` and of the statements, keep one buffer
per item. Their `set` overloads check the index and the declared type of the item and then
store the value. The type check is the family of functors `IsValidDataType<T>`, one for each C++
type `T`; it is a parameter `isValid` here, and what is proved holds for each of them.

`AbstractData::check` rejects an index `>= elements_.size()`, and an error leaves the elements
as they were (`AbstractData.set_of_check_ne_ok`). `Tuple::check` tests `index > items_.size()`
instead: on a tuple of `n` items, `set(n, value)` passes the check and stores the value at
`items_[n]`, past the end of the vector (`Tuple.set_itemCount`).

`set(name, value)` sets the indices of the name one after the other and stops at the first
error. An unquoted name finds every field equal to it up to case, so on a user type with the
fields `a int` and `"A" text` the name `a` sets the first field to an `int` before the second
rejects it (`AbstractData.setByName_of_error`).

`Tuple::encode_with_length` writes `[int size][item]*` with an unset item as a null `[int] -1`,
into a buffer of exactly the size `get_buffers_size` computes (`Tuple.encodeWithLength_eq`).
Read back through `decode_row` and a `TupleIterator`, the items come back as the values over
their payloads, null where they were null or unset (`Tuple.tupleIterator_encodeWithLength`).
The iterator walks the component types of the tuple's type, so a tuple made by
`cass_tuple_new(n)`, whose type has no components, reads back as no values at all.
-/

namespace CassandraDriver

/-! ### Values bound by the setters -/

/-- `IsValidDataType<cass_int32_t>`: an `int` is bound to an item of type `int` only. -/
def isValidInt32 (_ : Int) (dataType : DataType) : Bool := dataType.valueType == .int

/-- `encode_with_length(cass_int32_t)`: `[int 4][int value]`. -/
def encodeWithLengthInt32 (value : Int) : List UInt8 :=
  BigEndian.encodeInt 4 4 ++ BigEndian.encodeInt 4 value

/-! ### `Tuple` -/

/-- `Tuple`: its `TupleType` and one buffer per item, empty while the item is unset. Both
constructors give it at least as many items as its type has components. -/
structure Tuple where
  dataType : DataType
  items : List (List UInt8)
  types_le : dataType.types.length ≤ items.length

namespace Tuple

/-- `Tuple(size_t item_count)`: a tuple type with no component types. -/
def new (itemCount : Nat) : Tuple :=
  ⟨.tuple [] false, List.replicate itemCount [], by simp [DataType.types]⟩

/-- `Tuple(const DataType::ConstPtr& data_type)`: one unset item per component type. -/
def ofDataType (dataType : DataType) : Tuple :=
  ⟨dataType, List.replicate dataType.types.length [], by simp⟩

section Set

variable {α : Type} (isValid : α → DataType → Bool) (encode : α → List UInt8)

/-- `Tuple::check`: the index is compared with the number of items by `>`, and the type is
checked only where the tuple's type has a component. -/
def check (t : Tuple) (index : Nat) (value : α) : CassError :=
  if index > t.items.length then .libIndexOutOfBounds
  else match t.dataType.types[index]? with
    | some type => if !isValid value type then .libInvalidValueType else .ok
    | none => .ok

/-- The `set(index, value)` overloads of `Tuple`: `check`, then `items_[index]` takes the
value's `[bytes]` encoding. `none` where that store lies past the end of `items_`, which is
undefined behaviour. -/
def set (t : Tuple) (index : Nat) (value : α) : Option (CassError × Tuple) :=
  match t.check isValid index value with
  | .ok =>
    if index < t.items.length then
      some (.ok, ⟨t.dataType, t.items.set index (encode value), by simpa using t.types_le⟩)
    else none
  | rc => some (rc, t)

lemma check_eq_indexOutOfBounds_iff (t : Tuple) (index : Nat) (value : α) :
    t.check isValid index value = .libIndexOutOfBounds ↔ t.items.length < index := by
  unfold check
  split_ifs with h
  · exact iff_of_true rfl h
  · refine iff_of_false ?_ h
    split
    · split_ifs <;> simp
    · simp

/-- An error leaves the items as they were. -/
lemma set_of_check_ne_ok {t : Tuple} {index : Nat} {value : α}
    (h : t.check isValid index value ≠ .ok) :
    t.set isValid encode index value = some (t.check isValid index value, t) := by
  unfold set
  split
  · contradiction
  · rfl

/-- On a tuple of `n` items, index `n` passes the check, whatever the value: the tuple's type has
no component there, and `n > n` is false. The value is then stored past the end of `items_`. -/
theorem set_itemCount (t : Tuple) (value : α) :
    t.check isValid t.items.length value = .ok ∧
      t.set isValid encode t.items.length value = none := by
  have hnone : t.dataType.types[t.items.length]? = none :=
    List.getElem?_eq_none t.types_le
  have hcheck : t.check isValid t.items.length value = .ok := by
    rw [check, if_neg (Nat.lt_irrefl _), hnone]
  refine ⟨hcheck, ?_⟩
  rw [set, hcheck, if_neg (Nat.lt_irrefl _)]

end Set

end Tuple

/-! ### `AbstractData` -/

/-- `AbstractData`: its elements. The virtual `get_type` and `get_indices` of the class that
derives from it are passed to the operations that call them. -/
structure AbstractData where
  elements : List Element

namespace AbstractData

section Set

variable {α : Type} (isValid : α → DataType → Bool) (getType : Nat → DataType)
  (toElement : α → Element)

/-- `AbstractData::check`: a null type, `DataType::NIL`, accepts every value. -/
def check (d : AbstractData) (index : Nat) (value : α) : CassError :=
  if index ≥ d.elements.length then .libIndexOutOfBounds
  else if !(getType index).isNil && !isValid value (getType index) then .libInvalidValueType
  else .ok

/-- The `set(index, value)` overloads of `AbstractData` for simple values, null, tuples and user
types: `check`, then the element takes the value, as its `[bytes]` encoding or as a null. -/
def set (d : AbstractData) (index : Nat) (value : α) : CassError × AbstractData :=
  match d.check isValid getType index value with
  | .ok => (.ok, ⟨d.elements.set index (toElement value)⟩)
  | rc => (rc, d)

/-- The loop of `set(name, value)` over the indices of the name: it stops at the first error,
and what it set before stays set. -/
def setIndices (d : AbstractData) (value : α) : List Nat → CassError × AbstractData
  | [] => (.ok, d)
  | index :: rest =>
    match d.set isValid getType toElement index value with
    | (.ok, d) => setIndices d value rest
    | (rc, d) => (rc, d)

/-- `AbstractData::set(name, value)`; `none` where `get_indices` asserts. -/
def setByName (getIndices : List UInt8 → Option (List Nat)) (d : AbstractData)
    (name : List UInt8) (value : α) : Option (CassError × AbstractData) := do
  let indices ← getIndices name
  if indices.isEmpty then pure (.libNameDoesNotExist, d)
  else pure (d.setIndices isValid getType toElement value indices)

lemma check_eq_indexOutOfBounds_iff (d : AbstractData) (index : Nat) (value : α) :
    d.check isValid getType index value = .libIndexOutOfBounds ↔ d.elements.length ≤ index := by
  unfold check
  split_ifs with h₁ h₂
  · exact iff_of_true rfl h₁
  · exact iff_of_false (by simp) (by omega)
  · exact iff_of_false (by simp) (by omega)

lemma check_eq_invalidValueType_iff (d : AbstractData) (index : Nat) (value : α) :
    d.check isValid getType index value = .libInvalidValueType ↔
      index < d.elements.length ∧ (getType index).isNil = false ∧
        isValid value (getType index) = false := by
  unfold check
  split_ifs with h₁ h₂
  · simp only [false_iff, not_and]
    omega
  · simp only [Bool.and_eq_true, Bool.not_eq_eq_eq_not, Bool.not_true] at h₂
    simp only [true_iff]
    exact ⟨by omega, h₂⟩
  · simp only [Bool.and_eq_true, Bool.not_eq_eq_eq_not, Bool.not_true, not_and] at h₂
    simp only [false_iff, not_and]
    exact fun _ => h₂

/-- An error leaves the elements as they were. -/
lemma set_of_check_ne_ok {d : AbstractData} {index : Nat} {value : α}
    (h : d.check isValid getType index value ≠ .ok) :
    d.set isValid getType toElement index value = (d.check isValid getType index value, d) := by
  unfold set
  split
  · contradiction
  · rfl

lemma set_of_check_eq_ok {d : AbstractData} {index : Nat} {value : α}
    (h : d.check isValid getType index value = .ok) :
    d.set isValid getType toElement index value =
      (.ok, ⟨d.elements.set index (toElement value)⟩) := by
  rw [set, h]

@[simp] lemma length_set (d : AbstractData) (index : Nat) (value : α) :
    (d.set isValid getType toElement index value).2.elements.length = d.elements.length := by
  unfold set
  split <;> simp

/-- The check reads only the number of elements, which a store keeps. -/
@[simp] lemma check_mk_set (d : AbstractData) (index index' : Nat) (e : Element) (value : α) :
    (AbstractData.mk (d.elements.set index' e)).check isValid getType index value =
      d.check isValid getType index value := by
  simp only [check, List.length_set]

/-- `index` set to `value` in turn, as the loop does when every check passes. -/
def setAll (d : AbstractData) (value : α) (indices : List Nat) : AbstractData :=
  ⟨indices.foldl (fun es index => es.set index (toElement value)) d.elements⟩

/-- The loop up to its first error: the indices before it are set, and the error is that of
the first index the check rejects. -/
lemma setIndices_eq (d : AbstractData) (value : α) (pre : List Nat) (index : Nat)
    (post : List Nat) (hpre : ∀ i ∈ pre, d.check isValid getType i value = .ok)
    (hindex : d.check isValid getType index value ≠ .ok) :
    d.setIndices isValid getType toElement value (pre ++ index :: post) =
      (d.check isValid getType index value, d.setAll toElement value pre) := by
  induction pre generalizing d with
  | nil =>
    rw [List.nil_append, setIndices, set_of_check_ne_ok isValid getType toElement hindex]
    split
    · rename_i heq
      exact absurd (congrArg Prod.fst heq) hindex
    · rename_i rc d' _ heq
      cases heq
      rfl
  | cons i pre ih =>
    have hi := hpre i List.mem_cons_self
    rw [List.cons_append, setIndices, set_of_check_eq_ok isValid getType toElement hi]
    -- the rest of the loop runs on the stored elements, which every check reads as before
    have hrest : ∀ j ∈ pre, (AbstractData.mk (d.elements.set i (toElement value))).check
        isValid getType j value = .ok := by
      intro j hj
      rw [check_mk_set]
      exact hpre j (List.mem_cons_of_mem _ hj)
    have hindex' : (AbstractData.mk (d.elements.set i (toElement value))).check
        isValid getType index value ≠ .ok := by
      rw [check_mk_set]
      exact hindex
    simp only
    rw [ih _ hrest hindex', check_mk_set]
    rfl

/-- `set(name, value)` that fails at an index leaves the indices before it set: the update is
atomic only when the first index of the name is the one that fails. -/
theorem setByName_of_error {getIndices : List UInt8 → Option (List Nat)} {d : AbstractData}
    {name : List UInt8} {value : α} {pre post : List Nat} {index : Nat}
    (hname : getIndices name = some (pre ++ index :: post))
    (hpre : ∀ i ∈ pre, d.check isValid getType i value = .ok)
    (hindex : d.check isValid getType index value ≠ .ok) :
    d.setByName isValid getType toElement getIndices name value =
      some (d.check isValid getType index value, d.setAll toElement value pre) := by
  have hne : (pre ++ index :: post).isEmpty = false := by simp
  simp only [setByName, hname, Option.bind_eq_bind, Option.bind_some, hne]
  rw [setIndices_eq isValid getType toElement d value pre index post hpre hindex]
  rfl

lemma length_setIndices (d : AbstractData) (value : α) (indices : List Nat) :
    (d.setIndices isValid getType toElement value indices).2.elements.length =
      d.elements.length := by
  induction indices generalizing d with
  | nil => rfl
  | cons index rest ih =>
    rw [setIndices]
    have hlen := length_set isValid getType toElement d index value
    split
    · rename_i d' heq
      rw [heq] at hlen
      rw [ih, hlen]
    · rename_i rc d' _ heq
      rw [heq] at hlen
      exact hlen

lemma length_of_setByName {getIndices : List UInt8 → Option (List Nat)} {d : AbstractData}
    {name : List UInt8} {value : α} {r : CassError × AbstractData}
    (h : d.setByName isValid getType toElement getIndices name value = some r) :
    r.2.elements.length = d.elements.length := by
  simp only [setByName, Option.bind_eq_bind] at h
  obtain ⟨indices, -, h⟩ := Option.bind_eq_some_iff.mp h
  split at h <;> cases h
  · rfl
  · exact length_setIndices isValid getType toElement d value indices

end Set

end AbstractData

/-- A `QueryRequest` is the `AbstractData` whose `get_type` is `DataType::NIL`: for a value other
than a collection, its `set` is `AbstractData::set` with no type to check. -/
lemma QueryRequest.set_eq_abstractData (isValid : BoundValue → DataType → Bool) (q : QueryRequest)
    (index : Nat) {value : BoundValue} (hvalue : ∀ c, value ≠ .collection c) :
    ((q.set index value).1, (q.set index value).2.elements) =
      (((AbstractData.mk q.elements).set isValid (fun _ => .nil) BoundValue.toElement index
        value).1,
       ((AbstractData.mk q.elements).set isValid (fun _ => .nil) BoundValue.toElement index
        value).2.elements) := by
  unfold QueryRequest.set AbstractData.set AbstractData.check
  by_cases hindex : index ≥ q.elements.length
  · simp [hindex]
  · cases value with
    | collection c => exact absurd rfl (hvalue c)
    | _ => simp [hindex, DataType.isNil]

/-! ### `UserTypeValue` -/

/-- `UserTypeValue`: the elements of a value of a user type, one per field of the type. -/
structure UserTypeValue extends AbstractData where
  dataType : DataType
  size_eq : elements.length = dataType.fields.length

namespace UserTypeValue

/-- `UserTypeValue(data_type)`: one unset element per field. -/
def new (dataType : DataType) : UserTypeValue :=
  ⟨⟨List.replicate dataType.fields.length .unset⟩, dataType, by simp⟩

/-- `get_type(index)`: `fields()[index].type`. -/
def getType (u : UserTypeValue) (index : Nat) : DataType :=
  (u.dataType.fields[index]?.map Prod.snd).getD .nil

/-- The names of the fields, in UTF-8, as the `CaseInsensitiveHashTable<Field>` of the
`UserType` holds them. -/
def fieldNames (dataType : DataType) : ValueNameHashTable :=
  ⟨dataType.fields.map fun f => ⟨f.1.toList.flatMap String.utf8EncodeChar⟩⟩

/-- `get_indices(name)`: `UserType::get_indices`. -/
def getIndices (u : UserTypeValue) (name : List UInt8) : Option (List Nat) :=
  (fieldNames u.dataType).getIndices name

/-- `set(name, value)` on a user type value; the elements keep one per field. -/
def setByName {α : Type} (isValid : α → DataType → Bool) (toElement : α → Element)
    (u : UserTypeValue) (name : List UInt8) (value : α) : Option (CassError × UserTypeValue) :=
  (u.toAbstractData.setByName isValid u.getType toElement u.getIndices name value).pmap
    (fun r h => (r.1, ⟨r.2, u.dataType, h.trans u.size_eq⟩))
    (fun _ hr => AbstractData.length_of_setByName isValid u.getType toElement hr)

end UserTypeValue

/-! ### Encoding a tuple -/

namespace Tuple

open FixedBuffer (Appends)

/-- `Tuple::get_buffers_size`: an unset item counts as the four bytes of a null. -/
def getBuffersSize (t : Tuple) : Nat :=
  t.items.foldl (fun size item => if item.length ≠ 0 then size + item.length else size + 4) 0

/-- The loop of `Tuple::encode_buffers`: a set item is copied, an unset one written as a
null. -/
def encodeBuffers : List (List UInt8) → FixedBuffer × Nat → Except EncodeError (FixedBuffer × Nat)
  | [], p => pure p
  | item :: items, p =>
    (if item.length ≠ 0 then Buffer.copy p.1 p.2 item item.length
      else Buffer.encodeInt32 p.1 p.2 (-1)) >>= encodeBuffers items

/-- `Tuple::encode_with_length`: a buffer of `4 + get_buffers_size()` bytes, that size as an
`int32_t`, then the items. -/
def encodeWithLength (t : Tuple) : Except EncodeError FixedBuffer := do
  let buffersSize := t.getBuffersSize
  let (buf, pos) ← Buffer.encodeInt32 (FixedBuffer.alloc (4 + buffersSize)) 0 (toInt32 buffersSize)
  let (buf, _) ← encodeBuffers t.items (buf, pos)
  pure buf

/-- What `encode_buffers` writes for an item: the item, or a null where it is unset. -/
def wire (item : List UInt8) : List UInt8 :=
  if item.length ≠ 0 then item else encodeWithLengthNull

lemma length_wire (item : List UInt8) :
    (wire item).length = if item.length ≠ 0 then item.length else 4 := by
  unfold wire
  split <;> rfl

lemma appends_encodeBuffers (items : List (List UInt8)) :
    Appends .bufferOverflow (encodeBuffers items) (items.flatMap wire) := by
  induction items with
  | nil => exact FixedBuffer.appends_pure _
  | cons item items ih =>
    have hitem : Appends .bufferOverflow
        (fun p => if item.length ≠ 0 then Buffer.copy p.1 p.2 item item.length
          else Buffer.encodeInt32 p.1 p.2 (-1)) (wire item) := by
      have h := FixedBuffer.appends_ite (item.length ≠ 0) (Buffer.appends_copy item item.length)
        (Buffer.appends_encodeInt32 (-1))
      rwa [List.take_length] at h
    exact hitem.bind ih

private lemma foldl_getBuffersSize (items : List (List UInt8)) (a : Nat) :
    items.foldl (fun size item => if item.length ≠ 0 then size + item.length else size + 4) a =
      a + (items.flatMap wire).length := by
  induction items generalizing a with
  | nil => simp
  | cons item items ih =>
    rw [List.foldl_cons, ih, List.flatMap_cons, List.length_append, length_wire]
    split <;> omega

/-- `get_buffers_size` counts exactly the bytes `encode_buffers` writes. -/
lemma length_flatMap_wire (t : Tuple) : (t.items.flatMap wire).length = t.getBuffersSize := by
  rw [getBuffersSize, foldl_getBuffersSize, Nat.zero_add]

/-- `encode_with_length` fills its buffer exactly: the size, then every item, a null for an
unset one. -/
theorem encodeWithLength_eq (t : Tuple) :
    t.encodeWithLength = .ok (FixedBuffer.ofBytes
      (BigEndian.encodeInt 4 (toInt32 t.getBuffersSize) ++ t.items.flatMap wire)) := by
  have hrun := ((Buffer.appends_encodeInt32 (toInt32 t.getBuffersSize)).bind
    (appends_encodeBuffers t.items)).run_alloc (4 + t.getBuffersSize)
  have hlen : (BigEndian.encodeInt 4 (toInt32 t.getBuffersSize) ++ t.items.flatMap wire).length =
      4 + t.getBuffersSize := by
    rw [List.length_append, BigEndian.length_encodeInt, length_flatMap_wire]
  rw [if_pos hlen.le, hlen, Nat.sub_self, FixedBuffer.filledTo_zero] at hrun
  dsimp only at hrun
  -- the chain of `encode_with_length`, then the buffer taken out of the result
  simp only [encodeWithLength, Prod.mk.eta]
  rw [← bind_assoc, hrun]
  rfl

end Tuple

/-! ### Reading a tuple back -/

/-- What an item of a tuple holds: never set, set to null, or set to a value, whose `[bytes]`
encoding is its payload behind its size. -/
inductive TupleItem
  | unset
  | null
  | value (payload : List UInt8)
  deriving DecidableEq, Repr

namespace TupleItem

/-- The buffer of `items_` that holds the item. -/
def buffer : TupleItem → List UInt8
  | unset => []
  | null => encodeWithLengthNull
  | value payload => BigEndian.encode 4 payload.length ++ payload

/-- The size read back for the item: `-1` for a null, and for an unset item, written as a
null. -/
def size : TupleItem → Int
  | value payload => payload.length
  | _ => -1

/-- Where the items of an encoded tuple are read from `pos` on: the position of each payload
and its size. -/
def spans : Int → List TupleItem → List (Int × Int)
  | _, [] => []
  | pos, item :: items => (pos + 4, item.size) :: spans (pos + 4 + max item.size 0) items

@[simp] lemma wire_unset : Tuple.wire unset.buffer = encodeWithLengthNull := rfl

@[simp] lemma wire_null : Tuple.wire null.buffer = encodeWithLengthNull := rfl

@[simp] lemma wire_value (payload : List UInt8) :
    Tuple.wire (value payload).buffer = BigEndian.encode 4 payload.length ++ payload := by
  simp [Tuple.wire, buffer]

/-- The bytes written for an item: its size, and its payload when it has one. -/
lemma length_wire_buffer (item : TupleItem) :
    ((Tuple.wire item.buffer).length : Int) = 4 + max item.size 0 := by
  cases item with
  | unset => simp [encodeWithLengthNull, size]
  | null => simp [encodeWithLengthNull, size]
  | value payload =>
    simp only [wire_value, List.length_append, BigEndian.length_encode, size]
    omega

/-- One step of the iterator: the size of the item, read where it is written. -/
lemma decodeInt32At_wire (pre rest : List UInt8) (item : TupleItem) (hsize : item.size < 2 ^ 31) :
    decodeInt32At (pre ++ Tuple.wire item.buffer ++ rest) pre.length =
      some ((pre.length : Int) + 4, item.size) := by
  have hnull : decodeInt32 (pre ++ encodeWithLengthNull ++ rest) pre.length = some (-1) :=
    decodeInt32_encodeInt pre rest (by norm_num) (by norm_num)
  cases item with
  | unset => simp only [decodeInt32At, wire_unset, hnull, Option.map_some, size]
  | null => simp only [decodeInt32At, wire_null, hnull, Option.map_some, size]
  | value payload =>
    have hlt : payload.length < 2 ^ 31 := by simpa [size] using hsize
    have hread := decodeInt32_encode hlt pre (payload ++ rest)
    rw [← List.append_assoc] at hread
    simp only [decodeInt32At, wire_value, ← List.append_assoc, hread, Option.map_some, size]

end TupleItem

namespace Tuple

/-- A run of the iterator over encoded items: each type with the span of its item. -/
lemma readElements_wire {mem : List UInt8} (version : Int) :
    ∀ (types : List DataType) (items : List TupleItem) (pre post : List UInt8),
      mem = pre ++ items.flatMap (fun item => wire item.buffer) ++ post →
      types.length = items.length → (∀ item ∈ items, item.size < 2 ^ 31) →
      readElements mem version (decodeInt32At mem) types pre.length =
        (types.zip (TupleItem.spans pre.length items)).mapM fun x =>
          Value.make mem version x.1 x.2.1 x.2.2
  | [], [], _, _, _, _, _ => rfl
  | [], _ :: _, _, _, _, hlen, _ => by simp at hlen
  | _ :: _, [], _, _, _, hlen, _ => by simp at hlen
  | type :: types, item :: items, pre, post, hmem, hlen, hsize => by
    have hitem := hsize item List.mem_cons_self
    have hread := TupleItem.decodeInt32At_wire pre
      (items.flatMap (fun item => wire item.buffer) ++ post) item hitem
    have hmem' : mem = pre ++ wire item.buffer ++
        items.flatMap (fun item => wire item.buffer) ++ post := by
      rw [hmem, List.flatMap_cons]
      simp only [List.append_assoc]
    -- the rest of the run starts past this item's bytes
    have hpos : (((pre ++ wire item.buffer).length : Nat) : Int) =
        pre.length + 4 + max item.size 0 := by
      rw [List.length_append, Nat.cast_add, TupleItem.length_wire_buffer]
      ring
    have ih := readElements_wire version types items (pre ++ wire item.buffer) post hmem'
      (by simpa using hlen) (fun i hi => hsize i (List.mem_cons_of_mem _ hi))
    rw [hpos] at ih
    rw [← List.append_assoc] at hread
    rw [← hmem'] at hread
    simp only [readElements, hread, Option.bind_eq_bind, Option.bind_some, ih,
      TupleItem.spans, List.zip_cons_cons, List.mapM_cons]
    congr 1
    funext value
    cases List.mapM (m := Option) _ _ <;> rfl

/-- Each value item's payload lies where its span says. -/
lemma slice_spans {mem : List UInt8} :
    ∀ (items : List TupleItem) (pre post : List UInt8),
      mem = pre ++ items.flatMap (fun item => wire item.buffer) ++ post →
      ∀ x ∈ items.zip (TupleItem.spans pre.length items), ∀ payload, x.1 = .value payload →
        BigEndian.slice mem x.2.1 payload.length = some payload
  | [], _, _, _, x, hx, _, _ => by simp at hx
  | item :: items, pre, post, hmem, x, hx, payload, hpayload => by
    rw [TupleItem.spans, List.zip_cons_cons, List.mem_cons] at hx
    rcases hx with rfl | hx
    · subst hpayload
      have hmem' : mem = (pre ++ BigEndian.encode 4 payload.length) ++ payload ++
          (items.flatMap (fun item => wire item.buffer) ++ post) := by
        rw [hmem, List.flatMap_cons, TupleItem.wire_value]
        simp only [List.append_assoc]
      rw [hmem']
      have h := BigEndian.slice_append (pre ++ BigEndian.encode 4 payload.length) payload
        (items.flatMap (fun item => wire item.buffer) ++ post)
      simpa using h
    · -- the other items are read past this one
      have hmem' : mem = pre ++ wire item.buffer ++
          items.flatMap (fun item => wire item.buffer) ++ post := by
        rw [hmem, List.flatMap_cons]
        simp only [List.append_assoc]
      have hpos : (((pre ++ wire item.buffer).length : Nat) : Int) =
          pre.length + 4 + max item.size 0 := by
        rw [List.length_append, Nat.cast_add, TupleItem.length_wire_buffer]
        ring
      have ih := slice_spans items (pre ++ wire item.buffer) post hmem'
      rw [hpos] at ih
      exact ih x hx payload hpayload

end Tuple

namespace Tuple

/-- Each item's size is below the size of the whole encoding. -/
lemma size_lt_length_flatMap {items : List TupleItem} {item : TupleItem} (h : item ∈ items) :
    item.size < ((items.flatMap fun i => wire i.buffer).length : Int) := by
  induction items with
  | nil => simp at h
  | cons i items ih =>
    have hi := TupleItem.length_wire_buffer i
    rw [List.flatMap_cons, List.length_append, Nat.cast_add]
    rcases List.mem_cons.mp h with rfl | h
    · omega
    · have := ih h
      omega

/-- A tuple whose type has a component for each item, encoded in fewer than `2 ^ 31` bytes and
read back by `decode_row` anywhere in a buffer: the size in front counts the bytes after it, and
the `TupleIterator` yields each component as the value over its item's payload, a null for a
null or unset item. -/
theorem tupleIterator_encodeWithLength {t : Tuple} {types : List DataType} {isFrozen : Bool}
    (items : List TupleItem) (version : Int) (htype : t.dataType = .tuple types isFrozen)
    (hitems : t.items = items.map TupleItem.buffer) (hlen : types.length = items.length)
    (hsize : t.getBuffersSize < 2 ^ 31) (pre post : List UInt8) :
    ∃ bytes, t.encodeWithLength = .ok (FixedBuffer.ofBytes bytes) ∧
      bytes = BigEndian.encodeInt 4 t.getBuffersSize ++
        items.flatMap (fun item => wire item.buffer) ∧
      bytes.length = 4 + t.getBuffersSize ∧
      ∃ v, decodeRow (pre ++ bytes ++ post) version [t.dataType] pre.length =
          some ([v], ((pre.length + bytes.length : Nat) : Int)) ∧
        ElementIterator.values id (pre ++ bytes ++ post) (TupleIterator.new v) =
          (types.zip (TupleItem.spans (pre.length + 4) items)).mapM (fun x =>
            Value.make (pre ++ bytes ++ post) version x.1 x.2.1 x.2.2) ∧
        ∀ x ∈ items.zip (TupleItem.spans (pre.length + 4) items), ∀ payload,
          x.1 = .value payload →
            BigEndian.slice (pre ++ bytes ++ post) x.2.1 payload.length = some payload := by
  have hwire : t.items.flatMap wire = items.flatMap fun item => wire item.buffer := by
    rw [hitems, List.flatMap_map]
  set body := items.flatMap fun item => wire item.buffer
  set header := BigEndian.encodeInt 4 (t.getBuffersSize : Int)
  have hbody : body.length = t.getBuffersSize := by
    rw [← hwire, length_flatMap_wire]
  have hheader : header.length = 4 := BigEndian.length_encodeInt 4 _
  refine ⟨_, ?_, rfl, by rw [List.length_append, hheader, hbody], ?_⟩
  · rw [encodeWithLength_eq, toInt32_of_lt hsize, hwire]
  -- the buffer, split at the size in front and at the items
  have hmem : pre ++ (header ++ body) ++ post = pre ++ header ++ (body ++ post) := by
    simp only [List.append_assoc]
  have hpos : (((pre ++ header).length : Nat) : Int) = pre.length + 4 := by
    rw [List.length_append, hheader, Nat.cast_add]
    rfl
  have hread : decodeInt32 (pre ++ (header ++ body) ++ post) pre.length =
      some (t.getBuffersSize : Int) := by
    rw [hmem]
    exact decodeInt32_encodeInt _ _ (by omega) (by omega)
  -- a tuple is not a collection: its value points at the items, and counts its components
  have hmake : Value.make (pre ++ (header ++ body) ++ post) version t.dataType (pre.length + 4)
      t.getBuffersSize =
        some ⟨version, t.dataType, types.length, pre.length + 4, t.getBuffersSize⟩ := by
    have hnotNil : t.dataType.isNil = false := by
      rw [htype]
      rfl
    have hnotColl : t.dataType.isCollection = false := by
      rw [htype]
      rfl
    rw [Value.make_of_not_isCollection hnotNil hnotColl, htype]
    rfl
  refine ⟨⟨version, t.dataType, types.length, pre.length + 4, t.getBuffersSize⟩, ?_, ?_, ?_⟩
  · have hsize0 : (0 : Int) ≤ t.getBuffersSize := by omega
    simp only [decodeRow, hread, Option.bind_eq_bind, Option.bind_some, ge_iff_le, if_pos hsize0,
      hmake, List.length_append, hheader, hbody]
    congr 2
    push_cast
    ring
  · rw [ElementIterator.values_eq_readElements]
    simp only [TupleIterator.new, htype, DataType.types, List.map_id_fun, id_eq]
    rw [← hpos]
    refine readElements_wire version types items _ post (by rw [hmem, List.append_assoc (pre ++ header)]) hlen ?_
    intro item hitem
    have hlt := size_lt_length_flatMap hitem
    have hbody' : (items.flatMap fun i => wire i.buffer).length = t.getBuffersSize := hbody
    omega
  · rw [← hpos]
    exact slice_spans items _ post (by rw [hmem, List.append_assoc (pre ++ header)])

/-- A `tuple<int, text>` with its `int` set to 5 and its `text` unset, encoded at the start of a
buffer: the iterator yields the `int` over its four bytes and a null. -/
theorem tupleIterator_encodeWithLength_intUnset :
    (Tuple.mk (.tuple [.primitive .int, .primitive .text] false) [[0, 0, 0, 4, 0, 0, 0, 5], []]
        (by decide)).getBuffersSize < 2 ^ 31 ∧
      ∃ bytes, (Tuple.mk (.tuple [.primitive .int, .primitive .text] false)
          [[0, 0, 0, 4, 0, 0, 0, 5], []] (by decide)).encodeWithLength =
            .ok (FixedBuffer.ofBytes bytes) ∧
        ∃ v, decodeRow bytes 4 [.tuple [.primitive .int, .primitive .text] false] 0 =
            some ([v], 16) ∧
          (ElementIterator.values id bytes (TupleIterator.new v)).map
            (·.map fun w => (w.data, w.size)) = some [(8, 4), (16, -1)] := by
  have hsize : (Tuple.mk (.tuple [.primitive .int, .primitive .text] false)
      [[0, 0, 0, 4, 0, 0, 0, 5], []] (by decide)).getBuffersSize < 2 ^ 31 := by decide
  obtain ⟨bytes, henc, hbytes, -, v, hrow, hvalues, -⟩ :=
    tupleIterator_encodeWithLength [.value [0, 0, 0, 5], .unset] 4 rfl rfl rfl hsize [] []
  refine ⟨hsize, bytes, henc, v, ?_, ?_⟩
  · subst hbytes
    exact hrow
  · simp only [List.nil_append, List.append_nil] at hvalues
    rw [hvalues]
    subst hbytes
    decide

end Tuple

/-- `cass_tuple_new(1)` with its item set to the `int` 5: the tuple's type has no component, so a
`TupleIterator` over any value of that type yields nothing, whatever the bytes. -/
theorem tupleIterator_newTuple :
    ((Tuple.new 1).set isValidInt32 encodeWithLengthInt32 0 5).map
        (fun r => (r.1, r.2.dataType.types.length, r.2.items)) =
      some (.ok, 0, [encodeWithLengthInt32 5]) ∧
    ∀ (mem : List UInt8) (v : Value), v.dataType = (Tuple.new 1).dataType →
      ElementIterator.values id mem (TupleIterator.new v) = some [] := by
  refine ⟨by decide, fun mem v hv => ?_⟩
  rw [ElementIterator.values_eq_readElements]
  simp only [TupleIterator.new, hv, Tuple.new, DataType.types, List.map_nil]
  rfl

/-- A tuple of type `tuple<int>` takes an `int` at index 1, one past its only item. A user type
value with the fields `a int` and `"A" text`, given an `int` for the unquoted name `a`, stores it
into `a` and then fails on `"A"`, whose type rejects it. -/
theorem set_itemCount_setByName_caseFields :
    (Tuple.ofDataType (.tuple [.primitive .int] false)).check isValidInt32 1 5 = .ok ∧
      (Tuple.ofDataType (.tuple [.primitive .int] false)).set isValidInt32
        encodeWithLengthInt32 1 5 = none ∧
      ((UserTypeValue.new
          (.userType "ks" "t" [("a", .primitive .int), ("A", .primitive .text)] false)).setByName
        isValidInt32 (fun v => .buffer (encodeWithLengthInt32 v)) [97] 5).map
          (fun r => (r.1, r.2.elements)) =
        some (.libInvalidValueType, [.buffer (encodeWithLengthInt32 5), .unset]) := by
  obtain ⟨hcheck, hset⟩ := Tuple.set_itemCount isValidInt32 encodeWithLengthInt32
    (Tuple.ofDataType (.tuple [.primitive .int] false)) 5
  refine ⟨hcheck, hset, ?_⟩
  rfl

end CassandraDriver
