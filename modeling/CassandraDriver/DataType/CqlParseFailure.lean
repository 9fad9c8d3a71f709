import CassandraDriver.DataType.CqlRoundTrip

/-!
# Failures inside a CQL type name

`DataTypeCqlNameParser::parse` returns `DataType::NIL` when the parameters of `list`, `set`,
`map`, `tuple` or `frozen` have the wrong count, but it never looks at what the recursive calls
return: a parameter that itself fails becomes a `NIL` element of a collection or component of a
tuple, and the whole type is returned. A bare `list` (or `set`, `map`, `tuple`, `frozen`) is
such a parameter: with no `<` after it, its parameter list is empty.
-/

namespace CassandraDriver

namespace DataType

/-- Every sub-type reachable through list and set elements, map keys and values and tuple
components is non-null. -/
def subtypesNonNil : DataType → Bool
  | collection _ ts _ => allNonNil ts
  | tuple ts _ => allNonNil ts
  | _ => true
where
  /-- Each type of the list is non-null, and so are its sub-types. -/
  allNonNil : List DataType → Bool
    | [] => true
    | t :: ts => !t.isNil && subtypesNonNil t && allNonNil ts

@[simp] lemma subtypesNonNil_collection (vt : ValueType) (ts : List DataType) (f : Bool) :
    (collection vt ts f).subtypesNonNil = subtypesNonNil.allNonNil ts := by
  simp [subtypesNonNil]

@[simp] lemma allNonNil_cons (t : DataType) (ts : List DataType) :
    subtypesNonNil.allNonNil (t :: ts) =
      (!t.isNil && t.subtypesNonNil && subtypesNonNil.allNonNil ts) := by
  simp [subtypesNonNil.allNonNil]

end DataType

namespace DataTypeCqlNameParser

/-- A composite keyword with nothing after it parses as the null type, at every depth. -/
lemma parseWithDepth_bare {name : String}
    (h : name = "list" ∨ name = "set" ∨ name = "map" ∨ name = "tuple" ∨ name = "frozen")
    (d : Nat) (ks : KeyspaceMetadata) (b : Bool) :
    parseWithDepth (d + 1) name.toList ks b = (.nil, ks) := by
  rcases h with rfl | rfl | rfl | rfl | rfl <;> rfl

/-- A keyword is a parameter as `parse_type_parameters` reads it. -/
lemma printedParam_bare {name : String} (h : IsLetterWord name.toList) :
    PrintedParam name.toList :=
  ⟨name.toList, [], (List.append_nil _).symm, h, Or.inl rfl⟩

/-- A `list` or `set` whose element fails is still returned, with a null element. -/
theorem parseWithDepth_listOrSet_of_nil {vt : ValueType} (hvt : vt = .list ∨ vt = .set)
    {e : List Char} (he : PrintedParam e) {d : Nat} {ks : KeyspaceMetadata}
    (hnil : parseWithDepth d e ks false = (.nil, ks)) (b : Bool) :
    parseWithDepth (d + 1) (vt.cql.toList ++ '<' :: (e ++ ['>'])) ks b =
        (.collection vt [.nil] b, ks) ∧
      (DataType.collection vt [.nil] b).isNil = false ∧
      (DataType.collection vt [.nil] b).subtypesNonNil = false :=
  ⟨parseWithDepth_listOrSet hvt he hnil b, rfl, by simp [DataType.isNil]⟩

/-- `list<list>`, `set<map>`, …: a collection of a bare keyword is a collection of the null
type, at every depth. -/
theorem parseWithDepth_listOrSet_bare {vt : ValueType} (hvt : vt = .list ∨ vt = .set)
    {name : String}
    (hname : name = "list" ∨ name = "set" ∨ name = "map" ∨ name = "tuple" ∨ name = "frozen")
    (d : Nat) (ks : KeyspaceMetadata) (b : Bool) :
    parseWithDepth (d + 2) (vt.cql.toList ++ '<' :: (name.toList ++ ['>'])) ks b =
      (.collection vt [.nil] b, ks) := by
  have hword : IsLetterWord name.toList := by
    rcases hname with rfl | rfl | rfl | rfl | rfl <;> simp [IsLetterWord]
  exact (parseWithDepth_listOrSet_of_nil hvt (printedParam_bare hword)
    (parseWithDepth_bare hname d ks false) b).1

/-- A `map` whose key fails is still returned, with a null key. -/
theorem parseWithDepth_map_of_nil {k v : List Char} (hk : PrintedParam k) (hv : PrintedParam v)
    {d : Nat} {ks : KeyspaceMetadata} {tv : DataType}
    (hnil : parseWithDepth d k ks false = (.nil, ks))
    (htv : parseWithDepth d v ks false = (tv, ks)) (b : Bool) :
    parseWithDepth (d + 1)
        (ValueType.map.cql.toList ++ '<' :: ([',', ' '].intercalate [k, v] ++ ['>'])) ks b =
        (.collection .map [.nil, tv] b, ks) ∧
      (DataType.collection .map [.nil, tv] b).subtypesNonNil = false :=
  ⟨parseWithDepth_map hk hv hnil htv b, by simp [DataType.isNil]⟩

/-- `list<list>` parses as a list of the null type: the inner `list` has no parameters and
fails, and the outer one is returned around it. -/
theorem parse_list_bareList (ks : KeyspaceMetadata) :
    (parse "list<list>" ks).1 = .collection .list [.nil] false ∧
      (parse "list<list>" ks).1.isNil = false ∧
      (parse "list<list>" ks).1.subtypesNonNil = false := by
  have hparse : parse "list<list>" ks = (.collection .list [.nil] false, ks) := rfl
  rw [hparse]
  exact ⟨rfl, rfl, rfl⟩

end DataTypeCqlNameParser

end CassandraDriver
