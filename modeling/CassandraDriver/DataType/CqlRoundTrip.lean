import CassandraDriver.DataType.CqlParser

/-!
# CQL type names parse back to their type

`DataType::to_string` prints a type as a CQL type name and `DataTypeCqlNameParser::parse`
reads one. For every type built from the simple types that have a CQL name by the list, set,
map and tuple constructors, with any frozen flags, parsing the printed name gives the type back.
The empty tuple is the exception: it prints as `tuple<>`, which the parser rejects on purpose.

The proof follows the parser. A printed type scans through the bracket counter of
`read_raw_type_parameters` without closing the bracket it started in (`ScanThrough`), so the
raw parameters the parser cuts out of `name<p₁, p₂, …>` are exactly the printed sub-types;
each is then parsed back by induction, a frozen type in two steps, the `frozen<…>` wrapper
and the type inside it.
-/

namespace CassandraDriver

namespace DataType

/-- The types of the round trip: the simple types with a CQL name, lists and sets of one type,
maps of two and tuples of at least one, nested to any depth with any frozen flags. -/
def isCqlType : DataType → Bool
  | primitive vt => !vt.isComposite && vt.cql != ""
  | collection vt ts _ =>
    (((vt == .list || vt == .set) && ts.length == 1) || (vt == .map && ts.length == 2)) &&
      allCqlTypes ts
  | tuple ts _ => !ts.isEmpty && allCqlTypes ts
  | _ => false
where
  /-- Every type of a list is in the round trip. -/
  allCqlTypes : List DataType → Bool
    | [] => true
    | t :: ts => isCqlType t && allCqlTypes ts

/-- A type as the parser returns it when told that it is frozen: a `frozen<…>` wrapper marks
the collection or tuple it wraps and nothing else. -/
def withFrozen (b : Bool) : DataType → DataType
  | collection vt ts f => collection vt ts (f || b)
  | tuple ts f => tuple ts (f || b)
  | t => t

@[simp] lemma withFrozen_false (t : DataType) : t.withFrozen false = t := by
  cases t <;> simp [withFrozen]

@[simp] lemma toStringList_eq (ts : List DataType) :
    toString.toStringList ts = ts.map toString := by
  induction ts with
  | nil => rfl
  | cons t ts ih => simp [toString.toStringList, ih]

lemma allCqlTypes_iff (ts : List DataType) :
    isCqlType.allCqlTypes ts = true ↔ ∀ t ∈ ts, t.isCqlType = true := by
  induction ts with
  | nil => simp [isCqlType.allCqlTypes]
  | cons t ts ih => simp [isCqlType.allCqlTypes, ih]

lemma isCqlType_primitive {vt : ValueType} :
    (primitive vt).isCqlType = true ↔ vt.isComposite = false ∧ vt.cql ≠ "" := by
  simp [isCqlType]

lemma isCqlType_collection {vt : ValueType} {ts : List DataType} {f : Bool} :
    (collection vt ts f).isCqlType = true ↔
      ((vt = .list ∨ vt = .set) ∧ ts.length = 1 ∨ vt = .map ∧ ts.length = 2) ∧
        ∀ t ∈ ts, t.isCqlType = true := by
  simp [isCqlType, allCqlTypes_iff]

lemma isCqlType_tuple {ts : List DataType} {f : Bool} :
    (tuple ts f).isCqlType = true ↔ ts ≠ [] ∧ ∀ t ∈ ts, t.isCqlType = true := by
  simp [isCqlType, allCqlTypes_iff]

lemma toList_compositeToString_false (name : String) (params : List String) :
    (compositeToString name false params).toList =
      name.toList ++ '<' :: ([',', ' '].intercalate (params.map String.toList) ++ ['>']) := by
  simp [compositeToString, String.toList_intercalate]

lemma toList_compositeToString_true (name : String) (params : List String) :
    (compositeToString name true params).toList =
      "frozen".toList ++ '<' :: ((compositeToString name false params).toList ++ ['>']) := by
  simp [compositeToString, String.toList_intercalate]

lemma length_compositeToString_true (name : String) (params : List String) :
    (compositeToString name true params).length =
      (compositeToString name false params).length + 8 := by
  rw [← String.length_toList, ← String.length_toList, toList_compositeToString_true]
  simp

end DataType

namespace DataTypeCqlNameParser

/-! ### Scanning through balanced text -/

/-- Text that the bracket scan of `read_raw_type_parameters` passes through, from any open
depth, without closing the bracket it started in. -/
def ScanThrough (w : List Char) : Prop :=
  ∀ n rest, scanAngleBrackets (n + 1) false (w ++ rest) =
    (scanAngleBrackets (n + 1) false rest).map fun r => (w ++ r.1, r.2)

lemma scanThrough_nil : ScanThrough [] := by
  intro n rest
  cases h : scanAngleBrackets (n + 1) false rest <;> simp [h]

lemma ScanThrough.append {w₁ w₂ : List Char} (h₁ : ScanThrough w₁) (h₂ : ScanThrough w₂) :
    ScanThrough (w₁ ++ w₂) := by
  intro n rest
  rw [List.append_assoc, h₁, h₂, Option.map_map]
  congr 1
  funext r
  simp

/-- A character that is neither an angle bracket nor a double quote leaves the depth alone. -/
lemma scanThrough_singleton {c : Char} (h₁ : c ≠ '<') (h₂ : c ≠ '>') (h₃ : c ≠ '"') :
    ScanThrough [c] := by
  intro n rest
  simp [scanAngleBrackets, h₁, h₂, h₃]

lemma scanThrough_of_forall {w : List Char} (h : ∀ c ∈ w, c ≠ '<' ∧ c ≠ '>' ∧ c ≠ '"') :
    ScanThrough w := by
  induction w with
  | nil => exact scanThrough_nil
  | cons c w ih =>
    obtain ⟨h₁, h₂, h₃⟩ := h c (by simp)
    exact (scanThrough_singleton h₁ h₂ h₃).append (ih fun c hc => h c (by simp [hc]))

/-- A bracketed group of text that scans through is scanned through as a whole. -/
lemma ScanThrough.bracket {w : List Char} (h : ScanThrough w) :
    ScanThrough ('<' :: (w ++ ['>'])) := by
  intro n rest
  have hopen : scanAngleBrackets (n + 1) false ('<' :: (w ++ ['>'] ++ rest)) =
      (scanAngleBrackets (n + 2) false (w ++ '>' :: rest)).map fun r => ('<' :: r.1, r.2) := by
    simp [scanAngleBrackets]
  have hclose : scanAngleBrackets (n + 2) false ('>' :: rest) =
      (scanAngleBrackets (n + 1) false rest).map fun r => ('>' :: r.1, r.2) := by
    simp [scanAngleBrackets]
  rw [List.cons_append, hopen, h (n + 1), hclose]
  simp [Option.map_map, Function.comp_def]

/-- The scan opened by a `<` stops right after the `>` that closes it. -/
lemma ScanThrough.close {w : List Char} (h : ScanThrough w) (rest : List Char) :
    scanAngleBrackets 1 false (w ++ '>' :: rest) = some (w ++ ['>'], rest) := by
  rw [h 0]
  simp [scanAngleBrackets]

/-! ### Reading names and parameters -/

/-- A non-empty word of lower-case letters, as every CQL name of a value type is. -/
def IsLetterWord (w : List Char) : Prop := w ≠ [] ∧ ∀ c ∈ w, 'a' ≤ c ∧ c ≤ 'z'

/-- A character that may follow a name: the name ends there. -/
def EndsName (x : List Char) : Prop := ∀ c x', x = c :: x' → (isIdentifierChar c || c == '"') = false

lemma IsLetterWord.scanThrough {w : List Char} (h : IsLetterWord w) : ScanThrough w := by
  apply scanThrough_of_forall
  intro c hc
  obtain ⟨h₁, h₂⟩ := h.2 c hc
  refine ⟨?_, ?_, ?_⟩ <;> rintro rfl <;> simp_all

lemma skipBlank_letterWord {w : List Char} (h : IsLetterWord w) (x : List Char) :
    skipBlank (w ++ x) = w ++ x := by
  obtain ⟨c, w, rfl⟩ := List.exists_cons_of_ne_nil h.1
  obtain ⟨h₁, h₂⟩ := h.2 c (by simp)
  have hblank : isBlank c = false := by
    simp only [isBlank, Bool.or_eq_false_iff, beq_eq_false_iff_ne]
    refine ⟨⟨?_, ?_⟩, ?_⟩ <;> rintro rfl <;> simp_all
  simp [skipBlank, hblank]

lemma skipBlankAndComma_letterWord {w : List Char} (h : IsLetterWord w) (b : Bool)
    (x : List Char) : skipBlankAndComma b (w ++ x) = (true, w ++ x) := by
  obtain ⟨c, w, rfl⟩ := List.exists_cons_of_ne_nil h.1
  obtain ⟨h₁, h₂⟩ := h.2 c (by simp)
  have hcomma : (c == ',') = false := by
    rw [beq_eq_false_iff_ne]
    rintro rfl
    simp_all
  have hblank : isBlank c = false := by
    simp only [isBlank, Bool.or_eq_false_iff, beq_eq_false_iff_ne]
    refine ⟨⟨?_, ?_⟩, ?_⟩ <;> rintro rfl <;> simp_all
  simp [skipBlankAndComma, hcomma, hblank]

private lemma span_letterWord {w : List Char} (hw : ∀ c ∈ w, 'a' ≤ c ∧ c ≤ 'z')
    {x : List Char} (hx : EndsName x) :
    (w ++ x).span (fun c => isIdentifierChar c || c == '"') = (w, x) := by
  induction w with
  | nil =>
    cases x with
    | nil => rfl
    | cons c x' => simp [List.span, List.span.loop, hx c x' rfl]
  | cons c w ih =>
    obtain ⟨h₁, h₂⟩ := hw c (by simp)
    have hc : (isIdentifierChar c || c == '"') = true := by
      simp [isIdentifierChar, h₁, h₂]
    have ih' := ih fun d hd => hw d (by simp [hd])
    rw [List.span_eq_takeWhile_dropWhile] at ih' ⊢
    simp only [Prod.mk.injEq] at ih' ⊢
    simp [hc, ih'.1, ih'.2]

/-- `parse_type_name` reads a whole letter word and stops where a name cannot continue. -/
lemma parseTypeName_letterWord {w : List Char} (h : IsLetterWord w) {x : List Char}
    (hx : EndsName x) : parseTypeName (w ++ x) = (w, x) := by
  rw [parseTypeName, skipBlank_letterWord h]
  obtain ⟨c, w', rfl⟩ := List.exists_cons_of_ne_nil h.1
  obtain ⟨h₁, h₂⟩ := h.2 c (by simp)
  have hq : c ≠ '"' := by rintro rfl; simp_all
  have hs : c ≠ '\'' := by rintro rfl; simp_all
  have hspan := span_letterWord h.2 hx
  simp only [List.cons_append] at hspan ⊢
  unfold readNextIdentifier
  split <;> simp_all

/-- The shape of a printed type: a letter word, alone or followed by a bracketed group whose
inside scans through. -/
def PrintedParam (p : List Char) : Prop :=
  ∃ w tl, p = w ++ tl ∧ IsLetterWord w ∧
    (tl = [] ∨ ∃ inner, tl = '<' :: (inner ++ ['>']) ∧ ScanThrough inner)

/-- Text that a raw parameter may be followed by: its end, a comma or the closing bracket. -/
def EndsParam (x : List Char) : Prop := x = [] ∨ x.head? = some ',' ∨ x.head? = some '>'

lemma EndsParam.endsName {x : List Char} (h : EndsParam x) : EndsName x := by
  rintro c x' rfl
  rcases h with h | h | h <;> simp_all [isIdentifierChar]

lemma readRawTypeParameters_of_endsParam {x : List Char} (h : EndsParam x) :
    readRawTypeParameters x = some ([], x) := by
  rcases x with _ | ⟨c, x⟩
  · rfl
  · rcases h with h | h | h
    · simp at h
    all_goals
      simp only [List.head?_cons, Option.some.injEq] at h
      subst h
      simp [readRawTypeParameters, skipBlank, isBlank]

lemma readRawTypeParameters_bracket {inner : List Char} (h : ScanThrough inner)
    (x : List Char) :
    readRawTypeParameters ('<' :: (inner ++ ['>']) ++ x) = some ('<' :: (inner ++ ['>']), x) := by
  have hscan := h.close x
  simp only [List.append_assoc, List.cons_append, List.nil_append] at hscan ⊢
  simp [readRawTypeParameters, skipBlank, isBlank, hscan]

/-- One turn of the `parse_type_parameters` loop reads one printed parameter. -/
lemma parseTypeParametersLoop_printed_step {p : List Char} (hp : PrintedParam p) {x : List Char}
    (hx : EndsParam x) (fuel : Nat) (params : List (List Char)) :
    parseTypeParametersLoop (fuel + 1) params (p ++ x) =
      parseTypeParametersLoop fuel (params ++ [p]) x := by
  obtain ⟨w, tl, rfl, hw, htl⟩ := hp
  have hends : EndsName (tl ++ x) := by
    rcases htl with rfl | ⟨inner, rfl, -⟩
    · exact hx.endsName
    · rintro c x' h
      simp only [List.cons_append, List.cons.injEq] at h
      rw [← h.1]
      rfl
  have hraw : readRawTypeParameters (tl ++ x) = some (tl, x) := by
    rcases htl with rfl | ⟨inner, rfl, hinner⟩
    · exact readRawTypeParameters_of_endsParam hx
    · exact readRawTypeParameters_bracket hinner x
  obtain ⟨c, w', rfl⟩ := List.exists_cons_of_ne_nil hw.1
  have hc : c ≠ '>' := by
    obtain ⟨h₁, h₂⟩ := hw.2 c (by simp)
    rintro rfl
    simp_all
  have hname := parseTypeName_letterWord hw hends
  rw [List.append_assoc, parseTypeParametersLoop, skipBlankAndComma_letterWord hw]
  simp only [List.cons_append] at hname ⊢
  split
  · simp_all
  · simp_all
  · simp_all

/-- After a comma and a blank the loop is where it would be without them. -/
lemma parseTypeParametersLoop_sep {w : List Char} (hw : IsLetterWord w) (x : List Char)
    (fuel : Nat) (params : List (List Char)) :
    parseTypeParametersLoop fuel params (',' :: ' ' :: (w ++ x)) =
      parseTypeParametersLoop fuel params (w ++ x) := by
  cases fuel with
  | zero => rfl
  | succ fuel =>
    have hskip : skipBlankAndComma false (',' :: ' ' :: (w ++ x)) = (true, w ++ x) := by
      rw [skipBlankAndComma]
      simp only [beq_self_eq_true, if_true, Bool.false_eq_true, if_false]
      rw [skipBlankAndComma]
      simp [isBlank, skipBlankAndComma_letterWord hw]
    rw [parseTypeParametersLoop, parseTypeParametersLoop, hskip, skipBlankAndComma_letterWord hw]

private lemma intercalate_cons_append (sep q : List Char) (qs : List (List Char)) :
    ∃ t, sep.intercalate (q :: qs) = q ++ t := by
  cases qs with
  | nil => exact ⟨[], by simp⟩
  | cons r rs => exact ⟨sep ++ sep.intercalate (r :: rs), by simp [List.intercalate_cons_cons]⟩

/-- The loop of `parse_type_parameters` cuts `p₁, p₂, …, pₙ>` into the printed parameters. -/
lemma parseTypeParametersLoop_printed (ps : List (List Char)) (hps : ∀ p ∈ ps, PrintedParam p)
    (hne : ps ≠ []) (fuel : Nat) (hfuel : ps.length < fuel) (params : List (List Char)) :
    parseTypeParametersLoop fuel params ([',', ' '].intercalate ps ++ ['>']) = params ++ ps := by
  induction ps generalizing fuel params with
  | nil => exact absurd rfl hne
  | cons p ps ih =>
    obtain ⟨fuel, rfl⟩ : ∃ f, fuel = f + 1 := ⟨fuel - 1, by simp at hfuel; omega⟩
    have hp := hps p (by simp)
    cases ps with
    | nil =>
      rw [List.intercalate_singleton, parseTypeParametersLoop_printed_step hp (by simp [EndsParam])]
      obtain ⟨fuel, rfl⟩ : ∃ f, fuel = f + 1 := ⟨fuel - 1, by simp at hfuel; omega⟩
      simp [parseTypeParametersLoop, skipBlankAndComma, isBlank]
    | cons q qs =>
      obtain ⟨w, tl, hq, hw, -⟩ := hps q (by simp)
      obtain ⟨t, ht⟩ := intercalate_cons_append [',', ' '] q qs
      have hrest : [',', ' '].intercalate (q :: qs) ++ ['>'] = w ++ (tl ++ t ++ ['>']) := by
        rw [ht, hq]
        simp
      rw [List.intercalate_cons_cons, List.append_assoc, List.append_assoc,
        parseTypeParametersLoop_printed_step hp (by simp [EndsParam])]
      simp only [List.cons_append, List.nil_append]
      rw [hrest, parseTypeParametersLoop_sep hw, ← hrest,
        ih (fun r hr => hps r (by simp [hr])) (by simp) fuel (by simpa using hfuel)]
      simp

private lemma length_le_length_intercalate {sep p : List Char} {ps : List (List Char)}
    (h : p ∈ ps) : p.length ≤ (sep.intercalate ps).length := by
  induction ps with
  | nil => simp at h
  | cons q qs ih =>
    cases qs with
    | nil => simp_all
    | cons r rs =>
      rw [List.intercalate_cons_cons, List.length_append, List.length_append]
      rcases List.mem_cons.1 h with rfl | h
      · omega
      · have := ih h
        omega

private lemma length_le_length_intercalate_of_ne_nil {sep : List Char} {ps : List (List Char)}
    (h : ∀ p ∈ ps, p ≠ []) : ps.length ≤ (sep.intercalate ps).length := by
  induction ps with
  | nil => simp
  | cons p ps ih =>
    have hp : 0 < p.length := List.length_pos_of_ne_nil (h p (by simp))
    cases ps with
    | nil =>
      rw [List.intercalate_singleton, List.length_singleton]
      exact hp
    | cons q qs =>
      have hqs := ih fun r hr => h r (List.mem_cons_of_mem _ hr)
      rw [List.intercalate_cons_cons, List.length_append, List.length_append]
      simp only [List.length_cons] at hqs ⊢
      omega

lemma PrintedParam.ne_nil {p : List Char} (h : PrintedParam p) : p ≠ [] := by
  obtain ⟨w, tl, rfl, hw, -⟩ := h
  simp [hw.1]

/-- `parse_type_parameters` on `<p₁, …, pₙ>` gives the printed parameters back. -/
lemma parseTypeParameters_printed {ps : List (List Char)} (hps : ∀ p ∈ ps, PrintedParam p)
    (hne : ps ≠ []) :
    parseTypeParameters ('<' :: ([',', ' '].intercalate ps ++ ['>'])) = ps := by
  have hlen : ps.length ≤ ([',', ' '].intercalate ps).length :=
    length_le_length_intercalate_of_ne_nil fun p hp => (hps p hp).ne_nil
  simp only [parseTypeParameters, List.isEmpty_cons, Bool.false_eq_true, if_false]
  have hskip : skipBlankAndComma false ('<' :: ([',', ' '].intercalate ps ++ ['>'])) =
      (true, '<' :: ([',', ' '].intercalate ps ++ ['>'])) := by
    simp [skipBlankAndComma, isBlank]
  rw [hskip]
  exact parseTypeParametersLoop_printed ps hps hne _ (by simp; omega) []

/-- A sub-type prints shorter than the composite type around it. -/
lemma length_toString_lt {t : DataType} {ts : List DataType} (h : t ∈ ts) (name : String)
    (f : Bool) :
    t.toString.length + 2 ≤ (DataType.compositeToString name f (ts.map DataType.toString)).length := by
  have hmem : t.toString.toList ∈ (ts.map DataType.toString).map String.toList := by
    simp only [List.map_map, List.mem_map, Function.comp_apply]
    exact ⟨t, h, rfl⟩
  have hle := @length_le_length_intercalate [',', ' '] _ _ hmem
  have hunfrozen : t.toString.length + 2 ≤
      (DataType.compositeToString name false (ts.map DataType.toString)).length := by
    rw [← String.length_toList, ← String.length_toList, DataType.toList_compositeToString_false]
    simp only [List.length_append, List.length_cons, List.length_nil]
    omega
  cases f with
  | false => exact hunfrozen
  | true =>
    rw [DataType.length_compositeToString_true]
    omega

lemma parseTypeParameters_single {p : List Char} (hp : PrintedParam p) :
    parseTypeParameters ('<' :: (p ++ ['>'])) = [p] := by
  have h := @parseTypeParameters_printed [p] (by simpa using hp) (by simp)
  rwa [List.intercalate_singleton] at h

/-- The bracket of a printed type ends its name. -/
lemma parseTypeName_composite {name : List Char} (h : IsLetterWord name) (rest : List Char) :
    parseTypeName (name ++ '<' :: rest) = (name, '<' :: rest) :=
  parseTypeName_letterWord h (by rintro c x' hx; cases hx; rfl)

lemma scanThrough_sep : ScanThrough [',', ' '] :=
  scanThrough_of_forall (by simp)

lemma scanThrough_intercalate {ps : List (List Char)} (h : ∀ p ∈ ps, ScanThrough p) :
    ScanThrough ([',', ' '].intercalate ps) := by
  induction ps with
  | nil => exact scanThrough_nil
  | cons p ps ih =>
    cases ps with
    | nil => simpa using h p (by simp)
    | cons q qs =>
      rw [List.intercalate_cons_cons, List.append_assoc]
      refine (h p (by simp)).append (scanThrough_sep.append (ih ?_))
      intro r hr
      exact h r (List.mem_cons_of_mem _ hr)

lemma PrintedParam.scanThrough {p : List Char} (h : PrintedParam p) : ScanThrough p := by
  obtain ⟨w, tl, rfl, hw, htl⟩ := h
  rcases htl with rfl | ⟨inner, rfl, hinner⟩
  · simpa using hw.scanThrough
  · exact hw.scanThrough.append hinner.bracket

lemma isLetterWord_frozen : IsLetterWord "frozen".toList := by
  simp [IsLetterWord]

/-- Every CQL name of a value type is a word of lower-case letters. -/
lemma isLetterWord_cql {vt : ValueType} (h : vt.cql ≠ "") : IsLetterWord vt.cql.toList := by
  cases vt <;> simp_all [IsLetterWord, ValueType.cql, ValueType.mapping]

/-- `by_cql` maps every CQL name back to its value type. -/
lemma byCql_cql {vt : ValueType} (h : vt.cql ≠ "") : ValueType.byCql vt.cql.toList = vt := by
  revert h
  cases vt <;> decide

lemma printedParam_compositeToString {name : String} (hname : IsLetterWord name.toList)
    (f : Bool) {ps : List String} (hps : ∀ p ∈ ps, PrintedParam p.toList) :
    PrintedParam (DataType.compositeToString name f ps).toList := by
  have hinner : ScanThrough ([',', ' '].intercalate (ps.map String.toList)) := by
    apply scanThrough_intercalate
    simp only [List.mem_map, forall_exists_index, and_imp, forall_apply_eq_imp_iff₂]
    exact fun p hp => (hps p hp).scanThrough
  have hunfrozen : PrintedParam (DataType.compositeToString name false ps).toList := by
    rw [DataType.toList_compositeToString_false]
    exact ⟨name.toList, _, rfl, hname, Or.inr ⟨_, rfl, hinner⟩⟩
  cases f with
  | false => exact hunfrozen
  | true =>
    rw [DataType.toList_compositeToString_true]
    exact ⟨_, _, rfl, isLetterWord_frozen, Or.inr ⟨_, rfl, hunfrozen.scanThrough⟩⟩

/-- The CQL name of a list, set or map type is a letter word. -/
lemma cql_ne_empty_of_collection {vt : ValueType} {n : Nat}
    (h : (vt = .list ∨ vt = .set) ∧ n = 1 ∨ vt = .map ∧ n = 2) : vt.cql ≠ "" := by
  rcases h with ⟨rfl | rfl, -⟩ | ⟨rfl, -⟩ <;> decide

/-- Every type of the round trip prints in the shape the parameter reader cuts out. -/
theorem printedParam_toString : ∀ t : DataType, t.isCqlType → PrintedParam t.toString.toList
  | .primitive vt, h => by
    rw [DataType.isCqlType_primitive] at h
    exact ⟨vt.cql.toList, [], (List.append_nil _).symm, isLetterWord_cql h.2, Or.inl rfl⟩
  | .collection vt ts f, h => by
    rw [DataType.isCqlType_collection] at h
    rw [DataType.toString, DataType.toStringList_eq]
    exact printedParam_compositeToString (isLetterWord_cql (cql_ne_empty_of_collection h.1)) f
      (printedParam_toStrings ts h.2)
  | .tuple ts f, h => by
    rw [DataType.isCqlType_tuple] at h
    rw [DataType.toString, DataType.toStringList_eq]
    exact printedParam_compositeToString (isLetterWord_cql (by decide)) f
      (printedParam_toStrings ts h.2)
  | .nil, h | .custom _, h | .userType _ _ _ _, h => by
    simp [DataType.isCqlType] at h
where
  /-- The sub-types of a type of the round trip print in that shape too. -/
  printedParam_toStrings : ∀ ts : List DataType, (∀ t ∈ ts, t.isCqlType = true) →
      ∀ p ∈ ts.map DataType.toString, PrintedParam p.toList
    | [], _ => by simp
    | t :: ts, h => by
      intro p hp
      rcases List.mem_cons.1 hp with rfl | hp
      · exact printedParam_toString t (h t (by simp))
      · exact printedParam_toStrings ts (fun t' ht' => h t' (List.mem_cons_of_mem _ ht')) p hp

/-! ### Parsing printed types -/

/-- A simple type's name is read as that type, whatever the frozen flag. -/
lemma parseWithDepth_primitive {vt : ValueType} (hsimple : vt.isComposite = false)
    (hcql : vt.cql ≠ "") (d : Nat) (ks : KeyspaceMetadata) (b : Bool) :
    parseWithDepth (d + 1) vt.cql.toList ks b = (.primitive vt, ks) := by
  have hname : parseTypeName vt.cql.toList = (vt.cql.toList, []) := by
    have hends : EndsName [] := by
      rintro c x' ⟨⟩
    have := parseTypeName_letterWord (isLetterWord_cql hcql) hends
    rwa [List.append_nil] at this
  have hsome : DataType.byValueType (ValueType.byCql vt.cql.toList) = some (.primitive vt) := by
    rw [byCql_cql hcql, DataType.byValueType, if_neg (by simp [hsimple])]
  rw [parseWithDepth]
  unfold parseLevel
  rw [hname]
  dsimp only
  rw [hsome]

/-- The name of a composite value type is not the name of a simple type. -/
lemma byValueType_byCql_composite {vt : ValueType} (hcql : vt.cql ≠ "")
    (h : vt.isComposite = true) : DataType.byValueType (ValueType.byCql vt.cql.toList) = none := by
  rw [byCql_cql hcql]
  exact DataType.byValueType_of_isComposite h

/-- `frozen<p>` parses as `p` told that it is frozen. -/
lemma parseWithDepth_frozen {p : List Char} (hp : PrintedParam p) (d : Nat)
    (ks : KeyspaceMetadata) (b : Bool) :
    parseWithDepth (d + 1) ("frozen".toList ++ '<' :: (p ++ ['>'])) ks b =
      parseWithDepth d p ks true := by
  have hparams := parseTypeParameters_single hp
  have hnone : DataType.byValueType (ValueType.byCql "frozen".toList) = none :=
    DataType.byValueType_of_isComposite (by decide)
  have hname := parseTypeName_composite isLetterWord_frozen (p ++ ['>'])
  rw [parseWithDepth]
  unfold parseLevel
  rw [hname]
  dsimp only
  rw [hnone, hparams]
  dsimp only
  obtain ⟨hlist, hset, hmap, htuple, hfrozen⟩ :
      ValueType.iequals "frozen".toList "list".toList = false ∧
      ValueType.iequals "frozen".toList "set".toList = false ∧
      ValueType.iequals "frozen".toList "map".toList = false ∧
      ValueType.iequals "frozen".toList "tuple".toList = false ∧
      ValueType.iequals "frozen".toList "frozen".toList = true := by
    decide
  simp only [hlist, hset, hmap, htuple, hfrozen, Bool.false_eq_true, if_false, if_true]

/-- `list<e>` and `set<e>` parse as the collection of what `e` parses to. -/
lemma parseWithDepth_listOrSet {vt : ValueType} (hvt : vt = .list ∨ vt = .set) {e : List Char}
    (he : PrintedParam e) {d : Nat} {ks : KeyspaceMetadata} {t : DataType}
    (ht : parseWithDepth d e ks false = (t, ks)) (b : Bool) :
    parseWithDepth (d + 1) (vt.cql.toList ++ '<' :: (e ++ ['>'])) ks b =
      (.collection vt [t] b, ks) := by
  have hparams := parseTypeParameters_single he
  have hcql : vt.cql ≠ "" := by
    rcases hvt with rfl | rfl <;> decide
  have hnone : DataType.byValueType (ValueType.byCql vt.cql.toList) = none := by
    apply byValueType_byCql_composite hcql
    rcases hvt with rfl | rfl <;> rfl
  have hname := parseTypeName_composite (isLetterWord_cql hcql) (e ++ ['>'])
  rw [parseWithDepth]
  unfold parseLevel
  rw [hname]
  dsimp only
  rw [hnone, hparams]
  dsimp only
  rcases hvt with rfl | rfl
  · have hlist : ValueType.iequals ValueType.list.cql.toList "list".toList = true := by decide
    simp only [hlist, if_true, ht]
  · have hlist : ValueType.iequals ValueType.set.cql.toList "list".toList = false := by decide
    have hset : ValueType.iequals ValueType.set.cql.toList "set".toList = true := by decide
    simp only [hlist, hset, Bool.false_eq_true, if_false, if_true, ht]

/-- `map<k, v>` parses as the map of what `k` and `v` parse to. -/
lemma parseWithDepth_map {k v : List Char} (hk : PrintedParam k) (hv : PrintedParam v)
    {d : Nat} {ks : KeyspaceMetadata} {tk tv : DataType}
    (htk : parseWithDepth d k ks false = (tk, ks)) (htv : parseWithDepth d v ks false = (tv, ks))
    (b : Bool) :
    parseWithDepth (d + 1)
        (ValueType.map.cql.toList ++ '<' :: ([',', ' '].intercalate [k, v] ++ ['>'])) ks b =
      (.collection .map [tk, tv] b, ks) := by
  have hparams := @parseTypeParameters_printed [k, v] (by simp [hk, hv]) (by simp)
  have hcql : ValueType.map.cql ≠ "" := by decide
  have hname := parseTypeName_composite (isLetterWord_cql hcql)
    ([',', ' '].intercalate [k, v] ++ ['>'])
  rw [parseWithDepth]
  unfold parseLevel
  rw [hname]
  dsimp only
  rw [byValueType_byCql_composite hcql rfl, hparams]
  dsimp only
  obtain ⟨hlist, hset, hmap⟩ :
      ValueType.iequals ValueType.map.cql.toList "list".toList = false ∧
      ValueType.iequals ValueType.map.cql.toList "set".toList = false ∧
      ValueType.iequals ValueType.map.cql.toList "map".toList = true := by
    decide
  simp only [hlist, hset, hmap, Bool.false_eq_true, if_false, if_true, htk, htv]

private lemma foldl_parseWithDepth {d : Nat} {ks : KeyspaceMetadata} {ts : List DataType}
    (hts : ∀ t ∈ ts, parseWithDepth d t.toString.toList ks false = (t, ks))
    (acc : List DataType) :
    ((ts.map DataType.toString).map String.toList).foldl
        (fun (acc : List DataType × KeyspaceMetadata) p =>
          let (t, ks) := parseWithDepth d p acc.2 false
          (acc.1 ++ [t], ks)) (acc, ks) = (acc ++ ts, ks) := by
  induction ts generalizing acc with
  | nil => simp
  | cons t ts ih =>
    have ht := hts t (by simp)
    simp only [List.map_cons, List.foldl_cons, ht]
    rw [ih (fun t' ht' => hts t' (List.mem_cons_of_mem _ ht')), List.append_assoc,
      List.singleton_append]

/-- `tuple<p₁, …, pₙ>` parses as the tuple of what the `pᵢ` parse to. -/
lemma parseWithDepth_tuple {ts : List DataType} (hne : ts ≠ [])
    (hps : ∀ t ∈ ts, PrintedParam t.toString.toList) {d : Nat} {ks : KeyspaceMetadata}
    (hts : ∀ t ∈ ts, parseWithDepth d t.toString.toList ks false = (t, ks)) (b : Bool) :
    parseWithDepth (d + 1) (ValueType.tuple.cql.toList ++ '<' ::
        ([',', ' '].intercalate ((ts.map DataType.toString).map String.toList) ++ ['>'])) ks b =
      (.tuple ts b, ks) := by
  have hparams := @parseTypeParameters_printed ((ts.map DataType.toString).map String.toList)
    (by simpa using hps) (by simpa using hne)
  have hcql : ValueType.tuple.cql ≠ "" := by decide
  have hname := parseTypeName_composite (isLetterWord_cql hcql)
    ([',', ' '].intercalate ((ts.map DataType.toString).map String.toList) ++ ['>'])
  have hempty : ((ts.map DataType.toString).map String.toList).isEmpty = false := by
    simpa using hne
  rw [parseWithDepth]
  unfold parseLevel
  rw [hname]
  dsimp only
  rw [byValueType_byCql_composite hcql rfl, hparams]
  dsimp only
  obtain ⟨hlist, hset, hmap, htuple⟩ :
      ValueType.iequals ValueType.tuple.cql.toList "list".toList = false ∧
      ValueType.iequals ValueType.tuple.cql.toList "set".toList = false ∧
      ValueType.iequals ValueType.tuple.cql.toList "map".toList = false ∧
      ValueType.iequals ValueType.tuple.cql.toList "tuple".toList = true := by
    decide
  simp only [hlist, hset, hmap, htuple, Bool.false_eq_true, if_false, if_true, hempty,
    foldl_parseWithDepth hts, List.nil_append]

/-- `tuple<>` has no parameters, and `parse` refuses a tuple without components. -/
lemma parseWithDepth_emptyTuple (d : Nat) (ks : KeyspaceMetadata) (b : Bool) :
    parseWithDepth (d + 1) (ValueType.tuple.cql.toList ++ ['<', '>']) ks b = (.nil, ks) := by
  have hcql : ValueType.tuple.cql ≠ "" := by decide
  have hname := parseTypeName_composite (isLetterWord_cql hcql) ['>']
  have hparams : parseTypeParameters ['<', '>'] = [] := by decide
  rw [parseWithDepth]
  unfold parseLevel
  rw [hname]
  dsimp only
  rw [byValueType_byCql_composite hcql rfl, hparams]
  dsimp only
  obtain ⟨hlist, hset, hmap, htuple⟩ :
      ValueType.iequals ValueType.tuple.cql.toList "list".toList = false ∧
      ValueType.iequals ValueType.tuple.cql.toList "set".toList = false ∧
      ValueType.iequals ValueType.tuple.cql.toList "map".toList = false ∧
      ValueType.iequals ValueType.tuple.cql.toList "tuple".toList = true := by
    decide
  simp only [hlist, hset, hmap, htuple, Bool.false_eq_true, if_false, if_true, List.isEmpty_nil]

/-! ### The round trip -/

/-- A printed type of the round trip parses back to itself, marked frozen when the parser is
told that it is, at any depth above the length of its name. -/
theorem parseWithDepth_toString (d : Nat) :
    ∀ t : DataType, t.isCqlType → t.toString.length < d →
      ∀ ks b, parseWithDepth d t.toString.toList ks b = (t.withFrozen b, ks) := by
  induction d with
  | zero =>
    intro t _ hlen
    exact absurd hlen (Nat.not_lt_zero _)
  | succ d ih =>
    intro t ht hlen ks b
    -- the sub-types of a composite print shorter, so they parse back one level down
    have hsub : ∀ {ts : List DataType} (name : String) (f : Bool),
        (DataType.compositeToString name f (ts.map DataType.toString)).length < d + 1 →
        (∀ t ∈ ts, t.isCqlType = true) →
        ∀ t ∈ ts, parseWithDepth d t.toString.toList ks false = (t, ks) := by
      intro ts name f hlen hts t' ht'
      have hlt := length_toString_lt ht' name f
      have h := ih t' (hts t' ht') (by omega) ks false
      rwa [DataType.withFrozen_false] at h
    cases t with
    | primitive vt =>
      obtain ⟨hsimple, hcql⟩ := DataType.isCqlType_primitive.1 ht
      exact parseWithDepth_primitive hsimple hcql d ks b
    | collection vt ts f =>
      obtain ⟨harity, hts⟩ := DataType.isCqlType_collection.1 ht
      have hu : (DataType.collection vt ts false).isCqlType = true :=
        DataType.isCqlType_collection.2 ⟨harity, hts⟩
      rw [DataType.toString, DataType.toStringList_eq] at hlen ⊢
      cases f with
      | true =>
        -- `frozen<…>`: the wrapper is read, then the unfrozen type told that it is frozen
        have hlen' : (DataType.collection vt ts false).toString.length < d := by
          rw [DataType.length_compositeToString_true] at hlen
          rw [DataType.toString, DataType.toStringList_eq]
          omega
        have hprinted := printedParam_toString _ hu
        rw [DataType.toString, DataType.toStringList_eq] at hprinted
        have h := ih _ hu hlen' ks true
        rw [DataType.toString, DataType.toStringList_eq] at h
        rw [DataType.toList_compositeToString_true, parseWithDepth_frozen hprinted, h]
        rfl
      | false =>
        have hchildren := hsub vt.cql false hlen hts
        rw [DataType.toList_compositeToString_false]
        rcases harity with ⟨hvt, hlen1⟩ | ⟨rfl, hlen2⟩
        · obtain ⟨e, rfl⟩ := List.length_eq_one_iff.1 hlen1
          simp only [List.map_cons, List.map_nil, List.intercalate_singleton]
          exact parseWithDepth_listOrSet hvt (printedParam_toString e (hts e (by simp)))
            (hchildren e (by simp)) b
        · obtain ⟨k, v, rfl⟩ := List.length_eq_two.1 hlen2
          simp only [List.map_cons, List.map_nil]
          exact parseWithDepth_map (printedParam_toString k (hts k (by simp)))
            (printedParam_toString v (hts v (by simp))) (hchildren k (by simp))
            (hchildren v (by simp)) b
    | tuple ts f =>
      obtain ⟨hne, hts⟩ := DataType.isCqlType_tuple.1 ht
      have hu : (DataType.tuple ts false).isCqlType = true := DataType.isCqlType_tuple.2 ⟨hne, hts⟩
      rw [DataType.toString, DataType.toStringList_eq] at hlen ⊢
      cases f with
      | true =>
        have hlen' : (DataType.tuple ts false).toString.length < d := by
          rw [DataType.length_compositeToString_true] at hlen
          rw [DataType.toString, DataType.toStringList_eq]
          omega
        have hprinted := printedParam_toString _ hu
        rw [DataType.toString, DataType.toStringList_eq] at hprinted
        have h := ih _ hu hlen' ks true
        rw [DataType.toString, DataType.toStringList_eq] at h
        rw [DataType.toList_compositeToString_true, parseWithDepth_frozen hprinted, h]
        rfl
      | false =>
        rw [DataType.toList_compositeToString_false]
        exact parseWithDepth_tuple hne (fun t ht => printedParam_toString t (hts t ht))
          (hsub _ false hlen hts) b
    | nil | custom _ | userType _ _ _ _ =>
      simp [DataType.isCqlType] at ht

/-- The CQL name of every type built from the simple types with a CQL name by lists and sets of
one type, maps of two and tuples of at least one, with any frozen flags, parses back to that
type, and the keyspace is left as it was. -/
theorem parse_toString {t : DataType} (ht : t.isCqlType) (ks : KeyspaceMetadata) :
    parse t.toString ks = (t, ks) := by
  unfold parse
  rw [parseWithDepth_toString _ t ht (Nat.lt_succ_self _) ks false, DataType.withFrozen_false]

theorem parse_toString_frozenMap :
    (DataType.collection .map [.primitive .int, .collection .list [.primitive .text] true]
      false).isCqlType = true ∧
    parse (DataType.collection .map [.primitive .int, .collection .list [.primitive .text] true]
      false).toString ⟨"ks", []⟩ =
      (DataType.collection .map [.primitive .int, .collection .list [.primitive .text] true]
        false, ⟨"ks", []⟩) :=
  ⟨by decide, parse_toString (by decide) _⟩

/-- A tuple without components, frozen or not, prints as `tuple<>` and parses as the null
type. -/
theorem parse_toString_emptyTuple (f : Bool) (ks : KeyspaceMetadata) :
    parse (DataType.tuple [] f).toString ks = (.nil, ks) := by
  have hprinted : PrintedParam (ValueType.tuple.cql.toList ++ ['<', '>']) :=
    ⟨_, _, rfl, isLetterWord_cql (by decide), Or.inr ⟨[], rfl, scanThrough_nil⟩⟩
  have hs : (DataType.tuple [] false).toString.toList =
      ValueType.tuple.cql.toList ++ ['<', '>'] := by
    rw [DataType.toString, DataType.toStringList_eq, DataType.toList_compositeToString_false]
    rfl
  unfold parse
  cases f with
  | false =>
    rw [hs]
    exact parseWithDepth_emptyTuple _ ks false
  | true =>
    have hlen : (DataType.tuple [] true).toString.length = 14 + 1 := by decide
    have hs' : (DataType.tuple [] true).toString.toList =
        "frozen".toList ++ '<' :: (ValueType.tuple.cql.toList ++ ['<', '>'] ++ ['>']) := by
      rw [DataType.toString, DataType.toStringList_eq, DataType.toList_compositeToString_true,
        ← hs]
      rfl
    rw [hs', hlen, parseWithDepth_frozen hprinted, parseWithDepth_emptyTuple]

/-- `frozen<tuple<>>`, the name of the frozen empty tuple, parses as the null type in a keyspace
without user types. -/
theorem parse_toString_frozenEmptyTuple :
    parse (DataType.tuple [] true).toString ⟨"ks", []⟩ = (.nil, ⟨"ks", []⟩) :=
  parse_toString_emptyTuple true _

end DataTypeCqlNameParser

end CassandraDriver
