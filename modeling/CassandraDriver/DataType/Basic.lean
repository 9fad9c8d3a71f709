import Mathlib

/-!
# Value types and data types

`CassValueType` with the CQL and marshal class names of `CASS_VALUE_TYPE_MAPPING`
(`cassandra.h`), the lookups `ValueTypes::by_cql` and `ValueTypes::by_class`, and the
`DataType` class hierarchy of `data_type.hpp` as one inductive type. A `DataType::ConstPtr`
may be null (`DataType::NIL`); that pointer is the constructor `nil`.
-/

namespace CassandraDriver

/-- `CassValueType`. -/
inductive ValueType where
  | custom | ascii | bigint | blob | boolean | counter | decimal | double | float | int
  | text | timestamp | uuid | varchar | varint | timeuuid | inet | date | time | smallInt
  | tinyInt | duration | list | map | set | udt | tuple | json | unknown
  deriving DecidableEq, Repr

namespace ValueType

/-- The rows of `CASS_VALUE_TYPE_MAPPING`, in order: type, CQL name, marshal class name. -/
def mapping : List (ValueType × String × String) :=
  [(custom, "", ""),
   (ascii, "ascii", "org.apache.cassandra.db.marshal.AsciiType"),
   (bigint, "bigint", "org.apache.cassandra.db.marshal.LongType"),
   (blob, "blob", "org.apache.cassandra.db.marshal.BytesType"),
   (boolean, "boolean", "org.apache.cassandra.db.marshal.BooleanType"),
   (counter, "counter", "org.apache.cassandra.db.marshal.CounterColumnType"),
   (decimal, "decimal", "org.apache.cassandra.db.marshal.DecimalType"),
   (double, "double", "org.apache.cassandra.db.marshal.DoubleType"),
   (float, "float", "org.apache.cassandra.db.marshal.FloatType"),
   (int, "int", "org.apache.cassandra.db.marshal.Int32Type"),
   (text, "text", "org.apache.cassandra.db.marshal.UTF8Type"),
   (timestamp, "timestamp", "org.apache.cassandra.db.marshal.TimestampType"),
   (uuid, "uuid", "org.apache.cassandra.db.marshal.UUIDType"),
   (varchar, "varchar", ""),
   (varint, "varint", "org.apache.cassandra.db.marshal.IntegerType"),
   (timeuuid, "timeuuid", "org.apache.cassandra.db.marshal.TimeUUIDType"),
   (inet, "inet", "org.apache.cassandra.db.marshal.InetAddressType"),
   (date, "date", "org.apache.cassandra.db.marshal.SimpleDateType"),
   (time, "time", "org.apache.cassandra.db.marshal.TimeType"),
   (smallInt, "smallint", "org.apache.cassandra.db.marshal.ShortType"),
   (tinyInt, "tinyint", "org.apache.cassandra.db.marshal.ByteType"),
   (duration, "duration", "org.apache.cassandra.db.marshal.DurationType"),
   (list, "list", "org.apache.cassandra.db.marshal.ListType"),
   (map, "map", "org.apache.cassandra.db.marshal.MapType"),
   (set, "set", "org.apache.cassandra.db.marshal.SetType"),
   (udt, "", ""),
   (tuple, "tuple", "org.apache.cassandra.db.marshal.TupleType"),
   (json, "jsonb", "")]

/-- The CQL name of a value type, `""` when it has none (`DataType::to_string`). -/
def cql (vt : ValueType) : String :=
  ((mapping.find? (·.1 = vt)).map (·.2.1)).getD ""

/-- The marshal class name of a value type, `""` when it has none. -/
def klass (vt : ValueType) : String :=
  ((mapping.find? (·.1 = vt)).map (·.2.2)).getD ""

/-- ASCII case folding, as `::tolower` in the C locale. -/
def toLowerAscii (c : Char) : Char := if 'A' ≤ c ∧ c ≤ 'Z' then Char.ofNat (c.toNat + 32) else c

/-- `iequals`: equality up to ASCII case. -/
def iequals (a b : List Char) : Bool := a.map toLowerAscii == b.map toLowerAscii

/-- `ValueTypes::by_cql`: the hash map of non-empty CQL names, compared without case. -/
def byCql (name : List Char) : ValueType :=
  ((mapping.find? fun r => r.2.1 ≠ "" ∧ iequals r.2.1.toList name).map (·.1)).getD unknown

/-- `ValueTypes::by_class`: the hash map of non-empty class names, compared without case. -/
def byClass (name : List Char) : ValueType :=
  ((mapping.find? fun r => r.2.2 ≠ "" ∧ iequals r.2.2.toList name).map (·.1)).getD unknown

/-- The types `SimpleDataTypeCache::by_value_type` has no cached `DataType` for. -/
def isComposite (vt : ValueType) : Bool :=
  vt == unknown || vt == custom || vt == list || vt == map || vt == set || vt == udt ||
    vt == tuple

end ValueType

/-- A `DataType::ConstPtr`: null, or a plain `DataType` of a value type, a `CustomType`, a
`CollectionType` (list, set or map), a `TupleType` or a `UserType`. -/
inductive DataType where
  | nil
  | primitive (valueType : ValueType)
  | custom (className : String)
  | collection (valueType : ValueType) (types : List DataType) (isFrozen : Bool)
  | tuple (types : List DataType) (isFrozen : Bool)
  | userType (keyspace typeName : String) (fields : List (String × DataType)) (isFrozen : Bool)
  deriving Repr

namespace DataType

/-- A null `DataType::ConstPtr`. -/
def isNil : DataType → Bool
  | nil => true
  | _ => false

/-- `DataType::value_type`. -/
def valueType : DataType → ValueType
  | nil => .unknown
  | primitive vt => vt
  | custom _ => .custom
  | collection vt _ _ => vt
  | tuple _ _ => .tuple
  | userType _ _ _ _ => .udt

/-- `DataType::is_frozen`. -/
def isFrozen : DataType → Bool
  | nil => false
  | primitive _ => false
  | custom _ => false
  | collection _ _ f => f
  | tuple _ f => f
  | userType _ _ _ f => f

/-- `DataType::is_collection`. -/
def isCollection (dt : DataType) : Bool :=
  dt.valueType == .list || dt.valueType == .map || dt.valueType == .set

/-- `DataType::is_map`. -/
def isMap (dt : DataType) : Bool := dt.valueType == .map

/-- `DataType::is_tuple`. -/
def isTuple (dt : DataType) : Bool := dt.valueType == .tuple

/-- `DataType::is_user_type`. -/
def isUserType (dt : DataType) : Bool := dt.valueType == .udt

/-- The fields of a `UserType`, empty for the other classes. -/
def fields : DataType → List (String × DataType)
  | userType _ _ fs _ => fs
  | _ => []

/-- The sub-types of a `CompositeType` (`types()`), empty for the other classes. -/
def types : DataType → List DataType
  | collection _ ts _ => ts
  | tuple ts _ => ts
  | _ => []

/-- `SimpleDataTypeCache::by_value_type`: the shared `DataType` of a simple value type. -/
def byValueType (vt : ValueType) : Option DataType :=
  if vt.isComposite then none else some (primitive vt)

lemma byValueType_of_isComposite {vt : ValueType} (h : vt.isComposite = true) :
    byValueType vt = none := by
  rw [byValueType, if_pos h]

/-- `CompositeType::to_string` around the given sub-type names. -/
def compositeToString (name : String) (isFrozen : Bool) (params : List String) : String :=
  (if isFrozen then "frozen<" else "") ++ name ++ "<" ++ ", ".intercalate params ++
    (if isFrozen then ">>" else ">")

/-- `DataType::to_string` and its overrides. -/
def toString : DataType → String
  | nil => ""
  | primitive vt => vt.cql
  | custom className => className
  | collection vt ts f => compositeToString vt.cql f (toStringList ts)
  | tuple ts f => compositeToString ValueType.tuple.cql f (toStringList ts)
  | userType _ typeName _ f => (if f then "frozen<" else "") ++ typeName ++ (if f then ">" else "")
where
  /-- The names of a list of sub-types. -/
  toStringList : List DataType → List String
    | [] => []
    | t :: ts => toString t :: toStringList ts

end DataType

end CassandraDriver
