import CassandraDriver.Value.Collection

/-!
# Iterating over the elements of a tuple or a user type

`TupleIterator` and `UserTypeFieldIterator` read each element as `[int size][bytes]` and step
over the bytes only when the size is positive: a null element (a negative size) consumes no
payload. Over every payload they read the elements a reference decoder does, which reads a size
`n` and then `max n 0` bytes (`ElementIterator.values_eq_readElements`, for both).

`CollectionIterator::decode_value` and `MapIterator::decode_pair` return `buffer + size`
whatever the size, so after a null element they step back and read the next size from the
bytes of the null's own size (`collectionIterator_afterNull`).
-/

namespace CassandraDriver

/-- The reference decoder: for each element type, a size `n` read by `readSize` (the position
after it and `n`), a value of `n` bytes, null for a negative `n`, and the next element `max n 0`
bytes further. -/
def readElements (mem : List UInt8) (protocolVersion : Int) (readSize : Int → Option (Int × Int)) :
    List DataType → Int → Option (List Value)
  | [], _ => some []
  | t :: ts, position => do
    let (buffer, n) ← readSize position
    let value ← Value.make mem protocolVersion t buffer n
    (value :: ·) <$> readElements mem protocolVersion readSize ts (buffer + max n 0)

/-- `decode_int32` at a position: the position after it and the `int` read. -/
def decodeInt32At (mem : List UInt8) (position : Int) : Option (Int × Int) :=
  (decodeInt32 mem position).map fun size => (position + 4, size)

/-- The body of `TupleIterator::decode_value` and `UserTypeFieldIterator::decode_field`: the
element of type `type` at `position`, and the position after it, past its bytes only when its
size is positive. -/
def decodeElement (mem : List UInt8) (protocolVersion : Int) (type : DataType) (position : Int) :
    Option (Value × Int) := do
  let (buffer, size) ← decodeInt32At mem position
  let value ← Value.make mem protocolVersion type buffer size
  some (value, if size > 0 then buffer + size else buffer)

/-- Stepping over the bytes of a positive size only is stepping over `max size 0` bytes. -/
lemma ite_pos_add {buffer size : Int} :
    (if size > 0 then buffer + size else buffer) = buffer + max size 0 := by
  split_ifs <;> omega

/-! ### The iterators over the elements of a tuple or a user type -/

/-- The state `TupleIterator` and `UserTypeFieldIterator` share: the tuple or user type value,
the position of the next element, the elements not yet visited (`next_` to `end_`: types of a
tuple, fields of a user type) and the current value. -/
structure ElementIterator (α : Type) where
  owner : Value
  position : Int
  pending : List α
  value : Value

namespace ElementIterator

variable {α : Type} (typeOf : α → DataType)

/-- `next()`: the next element, read with `decodeElement` as the type of its entry says. -/
def next (mem : List UInt8) (it : ElementIterator α) : Option (Bool × ElementIterator α) :=
  match it.pending with
  | [] => some (false, it)
  | entry :: entries =>
    (decodeElement mem it.owner.protocolVersion (typeOf entry) it.position).map
      fun (value, position) => (true, { it with pending := entries, value, position })

/-- The values a loop `while (next()) value()` visits, with at most `fuel` turns. -/
def valuesAux (mem : List UInt8) : Nat → ElementIterator α → Option (List Value)
  | 0, _ => some []
  | fuel + 1, it => do
    let (more, it) ← it.next typeOf mem
    if more then (it.value :: ·) <$> valuesAux mem fuel it else some []

/-- The values a loop visits: one turn per element. -/
def values (mem : List UInt8) (it : ElementIterator α) : Option (List Value) :=
  valuesAux typeOf mem (it.pending.length + 1) it

/-- The loop reads the elements left as the reference decoder does. -/
lemma valuesAux_eq_readElements (mem : List UInt8) :
    ∀ (entries : List α) (it : ElementIterator α) (fuel : Nat), it.pending = entries →
      entries.length < fuel →
      valuesAux typeOf mem fuel it =
        readElements mem it.owner.protocolVersion (decodeInt32At mem) (entries.map typeOf)
          it.position
  | [], it, fuel, hpending, hfuel => by
    obtain ⟨fuel, rfl⟩ : ∃ f, fuel = f + 1 := ⟨fuel - 1, by simp at hfuel; omega⟩
    simp [valuesAux, next, hpending, readElements]
  | entry :: entries, it, fuel, hpending, hfuel => by
    obtain ⟨fuel, rfl⟩ : ∃ f, fuel = f + 1 := ⟨fuel - 1, by simp at hfuel; omega⟩
    simp only [valuesAux, next, hpending, decodeElement, readElements, List.map_cons]
    rcases h1 : decodeInt32At mem it.position with _ | ⟨buffer, size⟩
    · simp
    · rcases h2 : Value.make mem it.owner.protocolVersion (typeOf entry) buffer size with _ | value
      · simp [h2]
      · -- the next turn starts past the element's bytes, or right after its size
        have ih := valuesAux_eq_readElements mem entries
          { it with pending := entries, value, position := buffer + max size 0 } fuel rfl
          (by simp at hfuel; omega)
        simp only at ih
        simp [h2, ite_pos_add, ih]

/-- Over every payload, the iterator reads the elements as the reference decoder does. -/
theorem values_eq_readElements (mem : List UInt8) (it : ElementIterator α) :
    values typeOf mem it =
      readElements mem it.owner.protocolVersion (decodeInt32At mem) (it.pending.map typeOf)
        it.position :=
  valuesAux_eq_readElements typeOf mem it.pending it _ rfl (Nat.lt_succ_self _)

end ElementIterator

/-! ### `TupleIterator` and `UserTypeFieldIterator` -/

/-- `TupleIterator(const Value* tuple)`: the types of the tuple. -/
def TupleIterator.new (tuple : Value) : ElementIterator DataType :=
  ⟨tuple, tuple.data, tuple.dataType.types, .empty⟩

/-- `TupleIterator::next`: `decode_value` reads an element of the current type. -/
def TupleIterator.next (mem : List UInt8) (it : ElementIterator DataType) :
    Option (Bool × ElementIterator DataType) :=
  it.next id mem

/-- `UserTypeFieldIterator(const Value* user_type_value)`: the fields of the user type. -/
def UserTypeFieldIterator.new (userType : Value) : ElementIterator (String × DataType) :=
  ⟨userType, userType.data, userType.dataType.fields, .empty⟩

/-- `UserTypeFieldIterator::next`: `decode_field` reads an element of the current field's
type. -/
def UserTypeFieldIterator.next (mem : List UInt8) (it : ElementIterator (String × DataType)) :
    Option (Bool × ElementIterator (String × DataType)) :=
  it.next Prod.snd mem

/-- A list and a map of `int`s whose first element is null, and a tuple of two `int`s with the
same element bytes. The reference decoder and the tuple iterator read the second element, `5`,
from its four bytes after its size; the collection and map iterators step back one byte after
the null and read the size `-16777216` from the null's own size bytes. -/
theorem collectionIterator_afterNull :
    let list : Value := ⟨4, .collection .list [.primitive .int] false, 2, 4, 12⟩
    let map : Value := ⟨4, .collection .map [.primitive .int, .primitive .int] false, 1, 4, 12⟩
    let tuple : Value := ⟨4, .tuple [.primitive .int, .primitive .int] false, 2, 4, 12⟩
    let items : List UInt8 := [255, 255, 255, 255, 0, 0, 0, 4, 0, 0, 0, 5]
    (readElements ([0, 0, 0, 2] ++ items) 4 (decodeSize 4 ([0, 0, 0, 2] ++ items))
        [.primitive .int, .primitive .int] 4).map (·.map fun v => (v.data, v.size)) =
      some [(8, -1), (12, 4)] ∧
    (ElementIterator.values id ([0, 0, 0, 2] ++ items) (TupleIterator.new tuple)).map
        (·.map fun v => (v.data, v.size)) = some [(8, -1), (12, 4)] ∧
    (CollectionIterator.values ([0, 0, 0, 2] ++ items) (.new list)).map
        (·.map fun v => (v.data, v.size)) = some [(8, -1), (11, -16777216)] ∧
    (MapIterator.pairs ([0, 0, 0, 1] ++ items) (.new map)).map
        (·.map fun p => ((p.1.data, p.1.size), (p.2.data, p.2.size))) =
      some [((8, -1), (11, -16777216))] := by
  decide

end CassandraDriver
