import CassandraDriver.DataType.CqlParser

/-!
# `DataTypeClassNameParser`

The parser of Cassandra's marshal class names (`data_type_parser.cpp`), which the driver meets
in the schema tables of Cassandra 1.2 and 2.x, such as
`org.apache.cassandra.db.marshal.MapType(org.apache.cassandra.db.marshal.UTF8Type,…)`.
`parse_one` reads one type; `parse_with_composite` reads the `CompositeType(…)` of a table's
comparator or key validator into its components, their `ReversedType` flags and the collections
of a trailing `ColumnToCollectionType(…)`.

As in `DataTypeCqlNameParser`, the state of a `Parser` is the rest of its string. The one place
that needs the index itself is `read_raw_arguments`, which copies `str_.substr(i, index_)`: from
the opening parenthesis at `i`, `index_` characters, where `index_` is the position after the
closing one. The copy is therefore the arguments followed by up to `i` more characters of the
string; the readers of the copy stop at the matching parenthesis and do not see them.

`parse_one` unwraps a `FrozenType(…)` or `ReversedType(…)` and then tests the name inside for a
list, set, map or user type, but it tests the whole string, wrapper included, for a tuple: a
frozen or reversed tuple is read as a `CustomType` of the tuple's class name
(`parseOne_frozenTuple`).
-/

namespace CassandraDriver

/-- A `ParseResult`: whether the name was a `CompositeType`, its component types, which of them
are reversed, and the collections of a trailing `ColumnToCollectionType`, by column name. -/
structure ParseResult where
  isComposite : Bool
  types : List DataType
  reversed : List Bool
  collections : List (String × DataType)

namespace DataTypeClassNameParser

open DataTypeCqlNameParser (isIdentifierChar skipBlank skipBlankAndComma)

/-- `REVERSED_TYPE` -/
def reversedType : String := "org.apache.cassandra.db.marshal.ReversedType"

/-- `FROZEN_TYPE` -/
def frozenType : String := "org.apache.cassandra.db.marshal.FrozenType"

/-- `COMPOSITE_TYPE` -/
def compositeType : String := "org.apache.cassandra.db.marshal.CompositeType"

/-- `COLLECTION_TYPE` -/
def collectionType : String := "org.apache.cassandra.db.marshal.ColumnToCollectionType"

/-- `LIST_TYPE` -/
def listType : String := "org.apache.cassandra.db.marshal.ListType"

/-- `SET_TYPE` -/
def setType : String := "org.apache.cassandra.db.marshal.SetType"

/-- `MAP_TYPE` -/
def mapType : String := "org.apache.cassandra.db.marshal.MapType"

/-- `UDT_TYPE` -/
def udtType : String := "org.apache.cassandra.db.marshal.UserType"

/-- `TUPLE_TYPE` -/
def tupleType : String := "org.apache.cassandra.db.marshal.TupleType"

/-- `starts_with(type, prefix)`, with case. -/
def startsWith (type : List Char) (pfx : String) : Bool := pfx.toList.isPrefixOf type

/-- `is_reversed` -/
def isReversed (type : List Char) : Bool := startsWith type reversedType

/-- `is_frozen` -/
def isFrozen (type : List Char) : Bool := startsWith type frozenType

/-- `is_composite` -/
def isComposite (type : List Char) : Bool := startsWith type compositeType

/-- `is_collection` -/
def isCollection (type : List Char) : Bool := startsWith type collectionType

/-- `is_user_type` -/
def isUserType (type : List Char) : Bool := startsWith type udtType

/-- `is_tuple_type` -/
def isTupleType (type : List Char) : Bool := startsWith type tupleType

/-! ### Hexadecimal names -/

/-- `hex_value` -/
def hexValue (c : Char) : Option Nat :=
  if '0' ≤ c ∧ c ≤ '9' then some (c.toNat - '0'.toNat)
  else if 'A' ≤ c ∧ c ≤ 'F' then some (c.toNat - 'A'.toNat + 10)
  else if 'a' ≤ c ∧ c ≤ 'f' then some (c.toNat - 'a'.toNat + 10)
  else none

/-- The loop of `from_hex` over the pairs of digits. -/
def fromHexPairs : List Char → Option (List Char)
  | h0 :: h1 :: rest => do
    let half0 ← hexValue h0
    let half1 ← hexValue h1
    let name ← fromHexPairs rest
    some (Char.ofNat (half0 * 16 + half1) :: name)
  | _ => some []

/-- `from_hex(hex, &result)`: `none` for an odd length or a character that is not a hex digit. -/
def fromHex (hex : List Char) : Option (List Char) :=
  if hex.length % 2 = 1 then none else fromHexPairs hex

/-! ### `Parser` -/

/-- `Parser::read_next_identifier` -/
def readNextIdentifier (s : List Char) : List Char × List Char := s.span isIdentifierChar

/-- `Parser::get_next_name` -/
def getNextName (s : List Char) : List Char × List Char := readNextIdentifier (skipBlank s)

/-- The `while (open > 0)` loop of `read_raw_arguments` after the opening parenthesis: the rest
after the matching closing one, `none` when the string ends first. -/
def scanParens : Nat → List Char → Option (List Char)
  | _, [] => none
  | depth, c :: cs =>
    if c = '(' then scanParens (depth + 1) cs
    else if c = ')' then (if depth = 1 then some cs else scanParens (depth - 1) cs)
    else scanParens depth cs

/-- `Parser::read_raw_arguments` of a parser over `str` whose rest is `s`: the copied arguments
and the rest, `none` for the `false` return. -/
def readRawArguments (str s : List Char) : Option (List Char × List Char) :=
  match skipBlank s with
  | [] => some ([], [])
  | c :: cs =>
    if c = ')' ∨ c = ',' then some ([], c :: cs)
    else if c ≠ '(' then none
    else
      match scanParens 1 cs with
      | none => none
      | some rest =>
        -- `str_.substr(i, index_)`: from the parenthesis, as many characters as its end index
        let i := str.length - (c :: cs).length
        let index := str.length - rest.length
        some ((str.drop i).take index, rest)

/-- `Parser::read_one`: the next name and its raw arguments. -/
def readOne (str s : List Char) : Option (List Char × List Char) :=
  let (name, s) := getNextName s
  (readRawArguments str s).map fun (args, s) => (name ++ args, s)

/-- The `while (skip_blank_and_comma())` loop of `get_type_params`: whether it ends at the
closing parenthesis, the parameters pushed so far, and the rest. The loop takes at most one round
per character. -/
def getTypeParamsLoop (str : List Char) : Nat → List (List Char) → List Char →
    Bool × List (List Char) × List Char
  | 0, params, s => (false, params, s)
  | fuel + 1, params, s =>
    match skipBlankAndComma false s with
    | (false, s) => (false, params, s)
    | (true, ')' :: s) => (true, params, s)
    | (true, s) =>
      match readOne str s with
      | none => (false, params, s)
      | some (param, s) => getTypeParamsLoop str fuel (params ++ [param]) s

/-- `Parser::get_type_params`: the raw parameters of `(p1, p2, …)`, none at the end of the
string. The parameters pushed before a failure stay in the vector. -/
def getTypeParams (str s : List Char) : Bool × List (List Char) × List Char :=
  match s with
  | [] => (true, [], [])
  | '(' :: s => getTypeParamsLoop str (2 * str.length + 2) [] s
  | _ => (false, [], s)

/-- The loop of `get_name_and_type_params`: hex-encoded names, each with a `:` and a type. -/
def getNameAndTypeParamsLoop (str : List Char) : Nat → List (List Char × List Char) →
    List Char → Bool × List (List Char × List Char) × List Char
  | 0, params, s => (false, params, s)
  | fuel + 1, params, s =>
    match skipBlankAndComma false s with
    | (false, s) => (false, params, s)
    | (true, ')' :: s) => (true, params, s)
    | (true, s) =>
      let (hex, s) := readNextIdentifier s
      match fromHex hex with
      | none => (false, params, s)
      | some name =>
        match skipBlank s with
        | ':' :: s =>
          match readOne str (skipBlank s) with
          | none => (false, params, s)
          | some (type, s) => getNameAndTypeParamsLoop str fuel (params ++ [(name, type)]) s
        | s => (false, params, s)

/-- `Parser::get_name_and_type_params` -/
def getNameAndTypeParams (str s : List Char) : Bool × List (List Char × List Char) × List Char :=
  getNameAndTypeParamsLoop str (2 * str.length + 2) [] s

/-- `Parser::get_collection_params` -/
def getCollectionParams (str s : List Char) : Bool × List (List Char × List Char) × List Char :=
  match s with
  | [] => (true, [], [])
  | '(' :: s => getNameAndTypeParams str s
  | _ => (false, [], s)

/-- `get_nested_class_name`: the one parameter of a wrapper such as `FrozenType(…)`. The result
of `get_type_params` is not looked at, only the parameters it pushed. -/
def getNestedClassName (type : List Char) : Option (List Char) :=
  match (getTypeParams type (getNextName type).2).2.1 with
  | [param] => some param
  | _ => none

/-! ### `parse_one` -/

/-- The parameters of a user type after its name and `(`: the keyspace, the hex-encoded type
name and the fields, each a hex-encoded name and a class name. -/
def userTypeParams (str s : List Char) : Option (List Char × List Char × List (List Char × List Char)) := do
  let (keyspace, s) ← readOne str s
  let s := (skipBlankAndComma false s).2
  let (hex, s) ← readOne str s
  let typeName ← fromHex hex
  if keyspace.isEmpty ∨ typeName.isEmpty then none
  let s := (skipBlankAndComma false s).2
  match getNameAndTypeParams str s with
  | (true, rawFields, _) => some (keyspace, typeName, rawFields)
  | (false, _, _) => none

/-- One level of `DataTypeClassNameParser::parse_one`, with the parameters parsed by `parseOne`;
`DataType.nil` is the null pointer. -/
def parseOneLevel (parseOne : List Char → DataType) (type : List Char) : DataType :=
  let frozen := isFrozen type
  let className? : Option (List Char) :=
    if isReversed type ∨ frozen then getNestedClassName type else some type
  match className? with
  | none => .nil
  | some className =>
    let (next, s) := getNextName className
    if startsWith next listType then
      match getTypeParams className s with
      | (true, p :: _, _) =>
        let elementType := parseOne p
        if elementType.isNil then .nil else .collection .list [elementType] frozen
      | _ => .nil
    else if startsWith next setType then
      match getTypeParams className s with
      | (true, p :: _, _) =>
        let elementType := parseOne p
        if elementType.isNil then .nil else .collection .set [elementType] frozen
      | _ => .nil
    else if startsWith next mapType then
      match getTypeParams className s with
      | (true, p :: q :: _, _) =>
        let keyType := parseOne p
        let valueType := parseOne q
        if keyType.isNil ∨ valueType.isNil then .nil
        else .collection .map [keyType, valueType] frozen
      | _ => .nil
    else if isUserType next then
      -- `parser.skip()` passes over the `(`
      match userTypeParams className (s.drop 1) with
      | none => .nil
      | some (keyspace, typeName, rawFields) =>
        let fields := rawFields.map fun (name, t) => (String.ofList name, parseOne t)
        if fields.any (·.2.isNil) then .nil
        else .userType (String.ofList keyspace) (String.ofList typeName) fields true
    -- the test is on `type`, the name before any wrapper was taken off
    else if isTupleType type then
      match getTypeParams className s with
      | (false, _, _) => .nil
      | (true, rawTypes, _) =>
        let types := rawTypes.map parseOne
        if types.any DataType.isNil then .nil else .tuple types true
    else
      match DataType.byValueType (ValueType.byClass next) with
      | some simpleType => simpleType
      | none => .custom (String.ofList next)

/-- `parse_one` with its recursion depth bound. -/
def parseOneWithDepth : Nat → List Char → DataType
  | 0, _ => .nil
  | depth + 1, type => parseOneLevel (parseOneWithDepth depth) type

/-- `DataTypeClassNameParser::parse_one(type, cache)`. Every parameter is shorter than the name
it is read from, so a depth of the length of the name is never reached. -/
def parseOne (type : String) : DataType :=
  parseOneWithDepth (type.length + 1) type.toList

/-! ### `parse_with_composite` -/

/-- `collections[name] = data_type` in the `std::map` of collections: the entry replaces one of
the same name. -/
def insertCollection (collections : List (String × DataType)) (name : String) (t : DataType) :
    List (String × DataType) :=
  (name, t) :: collections.filter (·.1 ≠ name)

/-- The collections of a `ColumnToCollectionType(…)`, `none` when one fails to parse. -/
def parseCollections (collections : List (String × DataType)) :
    List (List Char × List Char) → Option (List (String × DataType))
  | [] => some collections
  | (name, t) :: params =>
    let dataType := parseOne (String.ofList t)
    if dataType.isNil then none
    else parseCollections (insertCollection collections (String.ofList name) dataType) params

/-- `DataTypeClassNameParser::parse_with_composite(type, cache)`; `none` is the null pointer. -/
def parseWithComposite (type : String) : Option ParseResult := do
  let str := type.toList
  let (next, s) := getNextName str
  if !isComposite next then
    let dataType := parseOne type
    if dataType.isNil then none
    else some ⟨false, [dataType], [isReversed next], []⟩
  else
    let subClassNames ← match getTypeParams str s with
      | (true, names, _) => some names
      | (false, _, _) => none
    if subClassNames.isEmpty then none
    let last := subClassNames.getLast?.getD []
    let collectionLast := isCollection last
    let count := if collectionLast then subClassNames.length - 1 else subClassNames.length
    let collections ← if collectionLast then
        match getCollectionParams last (getNextName last).2 with
        | (true, params, _) => parseCollections [] params
        | (false, _, _) => none
      else some []
    let types := (subClassNames.take count).map fun c => parseOne (String.ofList c)
    if types.any DataType.isNil then none
    some ⟨true, types, (subClassNames.take count).map isReversed, collections⟩

/-! ### A frozen or reversed tuple -/

/-- A name of identifier characters ends at the first other character. -/
lemma readNextIdentifier_append {n r : List Char} {c : Char} (hn : n.all isIdentifierChar)
    (hc : isIdentifierChar c = false) : readNextIdentifier (n ++ c :: r) = (n, c :: r) := by
  have hpos : ∀ a ∈ n, isIdentifierChar a = true := List.all_eq_true.mp hn
  rw [readNextIdentifier, List.span_eq_takeWhile_dropWhile, List.takeWhile_append_of_pos hpos,
    List.dropWhile_append_of_pos hpos]
  simp [hc]

/-- An identifier character is not a blank. -/
lemma isBlank_eq_false_of_isIdentifierChar {c : Char} (h : isIdentifierChar c = true) :
    DataTypeCqlNameParser.isBlank c = false := by
  cases hb : DataTypeCqlNameParser.isBlank c with
  | false => rfl
  | true =>
    simp only [DataTypeCqlNameParser.isBlank, Bool.or_eq_true, beq_iff_eq] at hb
    rcases hb with (rfl | rfl) | rfl <;> exact absurd h (by decide)

/-- `get_next_name` of a string that starts with a name. -/
lemma getNextName_append {n r : List Char} {c : Char} (hn : n.all isIdentifierChar)
    (hne : n ≠ []) (hc : isIdentifierChar c = false) : getNextName (n ++ c :: r) = (n, c :: r) := by
  obtain ⟨a, n', rfl⟩ := List.exists_cons_of_ne_nil hne
  have hblank := isBlank_eq_false_of_isIdentifierChar (c := a) (by simp_all)
  rw [getNextName, List.cons_append, skipBlank, hblank, if_neg Bool.false_ne_true,
    ← List.cons_append, readNextIdentifier_append hn hc]

/-- The scan of a group that closes at its end goes on with what follows it. -/
lemma scanParens_append {depth : Nat} {s : List Char} (h : scanParens depth s = some [])
    (r : List Char) : scanParens depth (s ++ r) = some r := by
  induction s generalizing depth with
  | nil => simp [scanParens] at h
  | cons c s ih =>
    simp only [scanParens, List.cons_append] at h ⊢
    split_ifs at h ⊢ with h1 h2 h3
    · exact ih h
    · cases h
      simp
    · exact ih h
    · exact ih h

/-- `read_raw_arguments` at an opening parenthesis after the prefix `pre` of the string: the
group up to its closing parenthesis and then as many more characters as `pre` has. -/
lemma readRawArguments_group (pre : List Char) {inner rest : List Char}
    (h : scanParens 1 (inner ++ rest) = some rest) :
    readRawArguments (pre ++ '(' :: (inner ++ rest)) ('(' :: (inner ++ rest)) =
      some ('(' :: (inner ++ rest.take pre.length), rest) := by
  have hskip : skipBlank ('(' :: (inner ++ rest)) = '(' :: (inner ++ rest) := by
    simp [skipBlank, DataTypeCqlNameParser.isBlank]
  simp only [readRawArguments, hskip, h]
  simp only [show ('(' : Char) ≠ ')' ∧ ('(' : Char) ≠ ',' by decide, false_or,
    if_false, ne_eq, not_true_eq_false, if_false, List.length_append, List.length_cons,
    Option.some.injEq, Prod.mk.injEq, and_true]
  rw [show pre.length + (inner.length + rest.length + 1) - (inner.length + rest.length + 1) =
    pre.length by omega, List.drop_left' rfl]
  rw [show pre.length + (inner.length + rest.length + 1) - rest.length =
    (inner.length + 1) + pre.length by omega]
  simp [List.take_add]

/-- The `skip_blank_and_comma` before a name or a closing parenthesis stops at once. -/
lemma skipBlankAndComma_of_ne {c : Char} (hc : c ≠ ',')
    (hb : DataTypeCqlNameParser.isBlank c = false) (r : List Char) :
    skipBlankAndComma false (c :: r) = (true, c :: r) := by
  simp [skipBlankAndComma, hc, hb]

/-- The names the parser compares a tuple's class name with. -/
lemma tupleType_facts :
    tupleType.toList.all isIdentifierChar ∧ tupleType.toList.head? = some 'o' ∧
      startsWith tupleType.toList listType = false ∧ startsWith tupleType.toList setType = false ∧
      startsWith tupleType.toList mapType = false ∧ isUserType tupleType.toList = false := by
  simp only [tupleType, listType, setType, mapType, isUserType, udtType, startsWith]
  decide

/-- A frozen or reversed wrapper's name. -/
lemma wrapper_facts {wrapper : String} (hw : wrapper = frozenType ∨ wrapper = reversedType) :
    wrapper.toList.all isIdentifierChar ∧ wrapper.toList ≠ [] ∧
      (∀ l, isReversed (wrapper.toList ++ l) = true ∨ isFrozen (wrapper.toList ++ l) = true) ∧
      ∀ l, isTupleType (wrapper.toList ++ l) = false := by
  rcases hw with rfl | rfl
  · refine ⟨by simp only [frozenType]; decide, by simp [frozenType], fun l => .inr ?_, fun l => ?_⟩
    · simp only [isFrozen, startsWith, List.isPrefixOf_iff_prefix]
      exact List.prefix_append _ _
    · simp only [isTupleType, startsWith, frozenType, tupleType]
      rfl
  · refine ⟨by simp only [reversedType]; decide, by simp [reversedType], fun l => .inl ?_,
      fun l => ?_⟩
    · simp only [isReversed, startsWith, List.isPrefixOf_iff_prefix]
      exact List.prefix_append _ _
    · simp only [isTupleType, startsWith, reversedType, tupleType]
      rfl

/-- `by_class` of the tuple's class name is the composite `CASS_VALUE_TYPE_TUPLE`, which
`by_value_type` has no simple type for. -/
lemma byValueType_byClass_tupleType :
    DataType.byValueType (ValueType.byClass tupleType.toList) = none := by
  have h : ValueType.byClass tupleType.toList = .tuple := by decide +kernel
  rw [h]
  exact DataType.byValueType_of_isComposite rfl

/-- A round of the loop of `get_type_params` at its closing parenthesis. -/
lemma getTypeParamsLoop_close {str s s' : List Char} (hs : skipBlankAndComma false s = (true, ')' :: s'))
    (fuel : Nat) (params : List (List Char)) :
    getTypeParamsLoop str (fuel + 1) params s = (true, params, s') := by
  rw [getTypeParamsLoop, hs]
  rfl

/-- A round of the loop of `get_type_params` that reads a parameter. -/
lemma getTypeParamsLoop_param {str s s' s'' param : List Char} {c : Char}
    (hs : skipBlankAndComma false s = (true, c :: s')) (hc : c ≠ ')')
    (hread : readOne str (c :: s') = some (param, s'')) (fuel : Nat) (params : List (List Char)) :
    getTypeParamsLoop str (fuel + 1) params s = getTypeParamsLoop str fuel (params ++ [param]) s'' := by
  rw [getTypeParamsLoop, hs]
  split
  · rename_i h; cases h
  · rename_i h; cases h; exact absurd rfl hc
  · rename_i heq; cases heq; rw [hread]

/-- The parameter of a wrapper around a tuple: the tuple's class name, with the wrapper's closing
parenthesis that `read_raw_arguments` copies after it. -/
lemma getNestedClassName_wrappedTuple {wrapper : String}
    (hw : wrapper = frozenType ∨ wrapper = reversedType) {body : List Char}
    (hbody : scanParens 1 (body ++ [')']) = some []) :
    getNestedClassName (wrapper.toList ++ '(' :: (tupleType.toList ++ '(' :: (body ++ [')', ')']))) =
      some (tupleType.toList ++ '(' :: (body ++ [')', ')'])) := by
  obtain ⟨hwId, hwNe, -, -⟩ := wrapper_facts hw
  obtain ⟨htId, hhead, -⟩ := tupleType_facts
  obtain ⟨t, ht⟩ : ∃ t, tupleType.toList = 'o' :: t := by
    cases h : tupleType.toList with
    | nil => simp [h] at hhead
    | cons c t => simp only [h, List.head?_cons, Option.some.injEq] at hhead; exact ⟨t, hhead ▸ rfl⟩
  have hX : tupleType.toList ++ '(' :: (body ++ [')', ')']) =
      'o' :: (t ++ '(' :: (body ++ [')', ')'])) := by
    rw [ht, List.cons_append]
  -- the wrapper's name, then its one parameter
  have hnext := getNextName_append (r := tupleType.toList ++ '(' :: (body ++ [')', ')']))
    hwId hwNe (c := '(') (by decide)
  have hname := getNextName_append (r := body ++ [')', ')']) htId (by simp [ht]) (c := '(')
    (by decide)
  have hgroup := readRawArguments_group (wrapper.toList ++ '(' :: tupleType.toList)
    (scanParens_append hbody [')'])
  have hpre : ([')'] : List Char).take (wrapper.toList ++ '(' :: tupleType.toList).length = [')'] := by
    apply List.take_of_length_le
    simp only [List.length_append, List.length_cons, List.length_nil]
    omega
  simp only [hpre, List.append_assoc, List.cons_append, List.nil_append] at hgroup
  have hread : readOne (wrapper.toList ++ '(' :: (tupleType.toList ++ '(' :: (body ++ [')', ')'])))
      ('o' :: (t ++ '(' :: (body ++ [')', ')']))) =
      some (tupleType.toList ++ '(' :: (body ++ [')', ')']), [')']) := by
    rw [← hX, readOne, hname]
    simp only [hgroup, Option.map_some]
  simp only [getNestedClassName, hnext, getTypeParams]
  rw [getTypeParamsLoop_param (hX ▸ skipBlankAndComma_of_ne (by decide) (by decide) _) (by decide)
    hread, getTypeParamsLoop_close (skipBlankAndComma_of_ne (by decide) (by decide) [])]
  rfl

/-- A frozen or reversed tuple, with any components, parses as a `CustomType` of the tuple's
class name: the test for a tuple is made on the name with its wrapper, and the name inside falls
through to `by_class`, which gives no simple type for a tuple. -/
theorem parseOneLevel_wrappedTuple (parseOne : List Char → DataType) {wrapper : String}
    (hw : wrapper = frozenType ∨ wrapper = reversedType) {body : List Char}
    (hbody : scanParens 1 (body ++ [')']) = some []) :
    parseOneLevel parseOne
        (wrapper.toList ++ '(' :: (tupleType.toList ++ '(' :: (body ++ [')', ')']))) =
      .custom tupleType := by
  obtain ⟨-, -, hwrap, hnotTuple⟩ := wrapper_facts hw
  obtain ⟨htId, hhead, hlist, hset, hmap, hudt⟩ := tupleType_facts
  have hname := getNextName_append (r := body ++ [')', ')']) htId
    (fun h => by simp [h] at hhead) (c := '(') (by decide)
  rw [parseOneLevel, if_pos (hwrap _), getNestedClassName_wrappedTuple hw hbody]
  simp only [hname, hlist, hset, hmap, hudt, hnotTuple, byValueType_byClass_tupleType,
    String.ofList_toList, Bool.false_eq_true, if_false]

/-- `frozen<tuple<int>>`, whose class name Cassandra writes
`FrozenType(TupleType(Int32Type))`, parses as a `CustomType` named
`org.apache.cassandra.db.marshal.TupleType`. -/
theorem parseOne_frozenTuple :
    parseOne (frozenType ++ "(" ++ tupleType ++ "(org.apache.cassandra.db.marshal.Int32Type))") =
      .custom tupleType := by
  have hbody : scanParens 1 ("org.apache.cassandra.db.marshal.Int32Type".toList ++ [')']) =
      some [] := by
    decide
  have htype : (frozenType ++ "(" ++ tupleType ++ "(org.apache.cassandra.db.marshal.Int32Type))").toList =
      frozenType.toList ++ '(' :: (tupleType.toList ++
        '(' :: ("org.apache.cassandra.db.marshal.Int32Type".toList ++ [')', ')'])) := by
    simp only [String.toList_append, List.append_assoc]
    rfl
  rw [parseOne, htype, parseOneWithDepth]
  exact parseOneLevel_wrappedTuple _ (.inl rfl) hbody

end DataTypeClassNameParser

end CassandraDriver
