import CassandraDriver.DataType.Basic

/-!
# `DataTypeCqlNameParser`

The parser of CQL type names (`data_type_parser.cpp`), such as `frozen<map<int, list<text>>>`.
The C++ `Parser` walks a string with an index that only moves forward; here its state is the
rest of the string, and a substring the code copies out (`str_.begin() + start` to
`str_.begin() + index_`) is the part consumed in between. Reading `str_[index_]` at the end of
the string gives `'\0'`, which matches none of the characters the parser looks for.

`parse` re-parses the raw parameter strings recursively. One level of it is `parseLevel`, which
takes the recursive call as an argument; `parseWithDepth` ties the knot with an explicit depth
that the top-level call sets to the length of the input, and the loop of
`parse_type_parameters` is bounded by twice that length.
-/

namespace CassandraDriver

/-- `KeyspaceMetadata` as the parser uses it: its name and its user types. -/
structure KeyspaceMetadata where
  name : String
  userTypes : List (String × DataType)

/-- `KeyspaceMetadata::get_or_create_user_type`. -/
def KeyspaceMetadata.getOrCreateUserType (ks : KeyspaceMetadata) (name : String)
    (isFrozen : Bool) : DataType × KeyspaceMetadata :=
  match ks.userTypes.lookup name with
  | some t => (t, ks)
  | none =>
    let t := DataType.userType ks.name name [] isFrozen
    (t, { ks with userTypes := ks.userTypes ++ [(name, t)] })

namespace DataTypeCqlNameParser

/-- `Parser::is_blank`. -/
def isBlank (c : Char) : Bool := c == ' ' || c == '\t' || c == '\n'

/-- `Parser::is_identifier_char`. -/
def isIdentifierChar (c : Char) : Bool :=
  ('0' ≤ c && c ≤ '9') || ('a' ≤ c && c ≤ 'z') || ('A' ≤ c && c ≤ 'Z') ||
    c == '-' || c == '+' || c == '.' || c == '_' || c == '&'

/-- `Parser::skip_blank`. -/
def skipBlank : List Char → List Char
  | [] => []
  | c :: cs => if isBlank c then skipBlank cs else c :: cs

/-- `Parser::skip_blank_and_comma`: skip blanks and at most one comma; `false` at the end of
the string. -/
def skipBlankAndComma (commaFound : Bool) : List Char → Bool × List Char
  | [] => (false, [])
  | c :: cs =>
    if c == ',' then
      if commaFound then (true, c :: cs) else skipBlankAndComma true cs
    else if !isBlank c then (true, c :: cs)
    else skipBlankAndComma commaFound cs

/-- The rest of a double-quoted identifier after its opening quote, up to and including the
closing quote; a doubled quote is an escaped quote. -/
def readQuoted : List Char → List Char × List Char
  | [] => ([], [])
  | '"' :: '"' :: cs => let r := readQuoted cs; ('"' :: '"' :: r.1, r.2)
  | '"' :: cs => (['"'], cs)
  | c :: cs => let r := readQuoted cs; (c :: r.1, r.2)

/-- The rest of a single-quoted name after its opening quote, up to and including the closing
quote. -/
def readSingleQuoted : List Char → List Char × List Char
  | [] => ([], [])
  | c :: cs => if c == '\'' then (['\''], cs) else let r := readSingleQuoted cs; (c :: r.1, r.2)

/-- `Parser::read_next_identifier`: the identifier consumed and the rest of the string. -/
def readNextIdentifier : List Char → List Char × List Char
  | '"' :: cs => let r := readQuoted cs; ('"' :: r.1, r.2)
  | '\'' :: cs => let r := readSingleQuoted cs; ('\'' :: r.1, r.2)
  | cs => cs.span fun c => isIdentifierChar c || c == '"'

/-- `Parser::parse_type_name`. -/
def parseTypeName (s : List Char) : List Char × List Char := readNextIdentifier (skipBlank s)

/-- The `while (open > 0)` scan of `read_raw_type_parameters` after the opening `<`, which
counts angle brackets outside double quotes; `none` when the string ends first. -/
def scanAngleBrackets : Nat → Bool → List Char → Option (List Char × List Char)
  | _, _, [] => none
  | depth, inQuotes, c :: cs =>
    let next : Nat × Bool :=
      if !inQuotes then
        if c == '"' then (depth, true)
        else if c == '<' then (depth + 1, false)
        else if c == '>' then (depth - 1, false)
        else (depth, false)
      else if c == '"' then (depth, false) else (depth, true)
    if next.1 = 0 then some ([c], cs)
    else (scanAngleBrackets next.1 next.2 cs).map fun r => (c :: r.1, r.2)

/-- `Parser::read_raw_type_parameters`: the bracketed parameters following a type name, empty
when none follow; `none` on a malformed string (the `false` return). -/
def readRawTypeParameters (s : List Char) : Option (List Char × List Char) :=
  match skipBlank s with
  | [] => some ([], [])
  | c :: cs =>
    if c == '>' || c == ',' then some ([], c :: cs)
    else if c != '<' then none
    else (scanAngleBrackets 1 false cs).map fun r => ('<' :: r.1, r.2)

/-- The `while (skip_blank_and_comma())` loop of `parse_type_parameters`, collecting the raw
parameters `name + args` until the closing `>`, the end of the string or an error. -/
def parseTypeParametersLoop : Nat → List (List Char) → List Char → List (List Char)
  | 0, params, _ => params
  | fuel + 1, params, s =>
    match skipBlankAndComma false s with
    | (false, _) => params
    | (true, '>' :: _) => params
    | (true, s) =>
      let (name, s) := parseTypeName s
      match readRawTypeParameters s with
      | none => params
      | some (args, s) => parseTypeParametersLoop fuel (params ++ [name ++ args]) s

/-- `Parser::parse_type_parameters`: the raw parameter strings of `<p1, p2, …>`. -/
def parseTypeParameters (s : List Char) : List (List Char) :=
  if s.isEmpty then []
  else
    match (skipBlankAndComma false s).2 with
    | '<' :: s => parseTypeParametersLoop (2 * s.length + 2) [] s
    | _ => []

/-- `org.apache.cassandra.db.marshal.EmptyType`. -/
def emptyType : String := "org.apache.cassandra.db.marshal.EmptyType"

/-- One level of `DataTypeCqlNameParser::parse`: the type a CQL type name denotes,
`DataType.nil` for `DataType::NIL`, and the keyspace with the user types created on the way;
the parameters are parsed by `parse`. -/
def parseLevel (parse : List Char → KeyspaceMetadata → Bool → DataType × KeyspaceMetadata)
    (type : List Char) (ks : KeyspaceMetadata) (isFrozen : Bool) : DataType × KeyspaceMetadata :=
  let typeName := (parseTypeName type).1
  let params := parseTypeParameters (parseTypeName type).2
  match DataType.byValueType (ValueType.byCql typeName) with
  | some simpleType => (simpleType, ks)
  | none =>
    if ValueType.iequals typeName "list".toList then
      match params with
      | [p] =>
        let (elementType, ks) := parse p ks false
        (.collection .list [elementType] isFrozen, ks)
      | _ => (.nil, ks)
    else if ValueType.iequals typeName "set".toList then
      match params with
      | [p] =>
        let (elementType, ks) := parse p ks false
        (.collection .set [elementType] isFrozen, ks)
      | _ => (.nil, ks)
    else if ValueType.iequals typeName "map".toList then
      match params with
      | [p, q] =>
        let (keyType, ks) := parse p ks false
        let (valueType, ks) := parse q ks false
        (.collection .map [keyType, valueType] isFrozen, ks)
      | _ => (.nil, ks)
    else if ValueType.iequals typeName "tuple".toList then
      if params.isEmpty then (.nil, ks)
      else
        let (types, ks) := params.foldl (fun (acc : List DataType × KeyspaceMetadata) p =>
          let (t, ks) := parse p acc.2 false
          (acc.1 ++ [t], ks)) ([], ks)
        (.tuple types isFrozen, ks)
    else if ValueType.iequals typeName "frozen".toList then
      match params with
      | [p] => parse p ks true
      | _ => (.nil, ks)
    else if typeName.isEmpty then (.nil, ks)
    else if ValueType.iequals typeName "empty".toList then (.custom emptyType, ks)
    else if typeName.head? = some '\'' then
      (.custom (String.ofList ((typeName.drop 1).take (typeName.length - 2))), ks)
    else
      let (userType, ks) := ks.getOrCreateUserType (String.ofList typeName) isFrozen
      match userType with
      | .userType keyspace name fields frozen =>
        if frozen != isFrozen then (.userType keyspace name fields isFrozen, ks)
        else (userType, ks)
      | _ => (userType, ks)

/-- `DataTypeCqlNameParser::parse` with its recursion depth bound. -/
def parseWithDepth : Nat → List Char → KeyspaceMetadata → Bool → DataType × KeyspaceMetadata
  | 0, _, ks, _ => (.nil, ks)
  | depth + 1, type, ks, isFrozen => parseLevel (parseWithDepth depth) type ks isFrozen

/-- `DataTypeCqlNameParser::parse(type, cache, keyspace, is_frozen)`. -/
def parse (type : String) (ks : KeyspaceMetadata) (isFrozen : Bool := false) :
    DataType × KeyspaceMetadata :=
  parseWithDepth (type.length + 1) type.toList ks isFrozen

end DataTypeCqlNameParser

end CassandraDriver
