import CassandraDriver.Request.FrameEncoding
import CassandraDriver.Request.QueryRequest

/-!
# Binding by name

`QueryRequest::get_indices` checks the room for a new name before adding it, with
`value_names_->size() > elements().size()`: a table holding as many names as there are values
still takes one more, with the index `elements().size()`, one past the last element. The set
that follows fails with `CASS_ERROR_LIB_INDEX_OUT_OF_BOUNDS` but the name stays, and
`encode_values_with_names` then reads the element at that index.

* `Bound`: what every run of binds keeps, from any request with `n` values: the values stay `n`
  and the table holds at most `n + 1` names (`Bound.bindAll`).
* A bind that succeeds keeps the table within the values (`setByName_ok`), and every read of
  `encode_values_with_names` past the values is at the name of index `n`
  (`Bound.encodeValuesWithNames_elementOutOfRange`).
* With no values, binding any name leaves the table with one name, and encoding the request
  reads past the values (`setByName_new_zero`).
-/

namespace CassandraDriver

/-- A name's buffer is always written: its size field is the length as an `uint16_t`, which is
never more than the length. -/
lemma ValueName.buf_eq (v : ValueName) :
    v.buf = .ok (FixedBuffer.filledTo
      (BigEndian.encode 2 (toUint16 v.name.length) ++ v.name.take (toUint16 v.name.length))
      (v.name.length - (v.name.take (toUint16 v.name.length)).length)) := by
  have h := (Buffer.appends_encodeString v.name (toUint16 v.name.length)).run_alloc
    (2 + v.name.length)
  have hfit : (BigEndian.encode 2 (toUint16 v.name.length) ++
      v.name.take (toUint16 v.name.length)).length ≤ 2 + v.name.length := by
    simp only [List.length_append, BigEndian.length_encode, List.length_take]
    omega
  rw [if_pos hfit] at h
  simp only [ValueName.buf, h]
  show Except.ok (FixedBuffer.filledTo _ _) = _
  rw [List.length_append, BigEndian.length_encode]
  congr 2
  omega

namespace ValueNameHashTable

lemma lt_of_mem_indicesWhere {t : ValueNameHashTable} {p : ValueName → Bool} {i : Nat}
    (h : i ∈ t.indicesWhere p) : i < t.entries.length := by
  simp only [indicesWhere, List.mem_map, List.mem_filter] at h
  obtain ⟨⟨e, j⟩, ⟨hmem, -⟩, rfl⟩ := h
  simpa using (List.mem_zipIdx hmem).2.1

lemma lt_of_getIndices {t : ValueNameHashTable} {name : List UInt8} {indices : List Nat}
    (h : t.getIndices name = some indices) : ∀ i ∈ indices, i < t.size := by
  intro i hi
  unfold getIndices at h
  split at h
  · obtain ⟨name', -, hpure⟩ := Option.bind_eq_some_iff.mp h
    cases hpure
    exact lt_of_mem_indicesWhere hi
  · cases h
    exact lt_of_mem_indicesWhere hi

end ValueNameHashTable

namespace QueryRequest

/-! ### Setting elements -/

lemma set_elements_length (q : QueryRequest) (index : Nat) (value : BoundValue) :
    (q.set index value).2.elements.length = q.elements.length := by
  unfold set
  split
  · rfl
  · split
    · split <;> simp
    · simp

/-- Setting an element leaves the names and everything else but the elements alone. -/
lemma set_valueNames (q : QueryRequest) (index : Nat) (value : BoundValue) :
    (q.set index value).2.valueNames = q.valueNames ∧
      (q.set index value).2.hasNamesForValues = q.hasNamesForValues := by
  unfold set
  split
  · exact ⟨rfl, rfl⟩
  · split
    · split <;> exact ⟨rfl, rfl⟩
    · exact ⟨rfl, rfl⟩

/-- `set` succeeds only at the index of an element. -/
lemma lt_of_set_ok {q : QueryRequest} {index : Nat} {value : BoundValue}
    (h : (q.set index value).1 = .ok) : index < q.elements.length := by
  unfold set at h
  split at h
  · cases h
  · omega

lemma setIndices_elements_length (q : QueryRequest) (value : BoundValue) :
    ∀ indices : List Nat, (q.setIndices value indices).2.elements.length = q.elements.length
  | [] => rfl
  | index :: rest => by
    unfold setIndices
    have hlen := q.set_elements_length index value
    split
    · next q' h =>
      rw [setIndices_elements_length q' value rest, ← hlen, h]
    · next rc q' _ h =>
      rw [← hlen, h]

lemma setIndices_valueNames (q : QueryRequest) (value : BoundValue) :
    ∀ indices : List Nat, (q.setIndices value indices).2.valueNames = q.valueNames ∧
      (q.setIndices value indices).2.hasNamesForValues = q.hasNamesForValues
  | [] => ⟨rfl, rfl⟩
  | index :: rest => by
    unfold setIndices
    have hset := q.set_valueNames index value
    split
    · next q' h =>
      rw [h] at hset
      rw [(setIndices_valueNames q' value rest).1, (setIndices_valueNames q' value rest).2]
      exact hset
    · next rc q' _ h =>
      rw [h] at hset
      exact hset

/-- When the loop succeeds, every index it set is that of an element. -/
lemma lt_of_setIndices_ok {value : BoundValue} :
    ∀ {q : QueryRequest} {indices : List Nat}, (q.setIndices value indices).1 = .ok →
      ∀ i ∈ indices, i < q.elements.length
  | _, [], _ => by simp
  | q, index :: rest, h => by
    unfold setIndices at h
    split at h
    · next q' hset =>
      have hlt : index < q.elements.length := lt_of_set_ok (by rw [hset])
      have hlen : q'.elements.length = q.elements.length := by
        rw [← q.set_elements_length index value, hset]
      intro i hi
      rcases List.mem_cons.mp hi with rfl | hi
      · exact hlt
      · exact hlen ▸ lt_of_setIndices_ok h i hi
    · next rc q' hne _ =>
      exact absurd h hne

/-! ### Looking names up -/

/-- The names of a request whose table is `t`. -/
lemma names_some (q : QueryRequest) {t : ValueNameHashTable} (h : q.valueNames = some t) :
    q.names = t.entries := by
  simp [names, h]

/-- What `get_indices` does with the table `t`, once it exists: the name is found, or the table
is full, or the name is added last and its index returned. -/
lemma getIndices_of_table {q q' : QueryRequest} {t : ValueNameHashTable} {name : List UInt8}
    {indices : List Nat} (ht : q.valueNames = some t) (h : q.getIndices name = some (indices, q')) :
    q'.elements = q.elements ∧ q'.hasNamesForValues = q.hasNamesForValues ∧
      ((q'.valueNames = some t ∧ ∀ i ∈ indices, i < t.size) ∨
        (t.size ≤ q.elements.length ∧ indices = [t.size] ∧
          ∃ v, q'.valueNames = some ⟨t.entries ++ [v]⟩)) := by
  unfold getIndices at h
  simp only [ht, Option.getD_some, Option.bind_eq_bind] at h
  obtain ⟨found, hfound, h⟩ := Option.bind_eq_some_iff.mp h
  split at h
  · split at h
    · -- the table is full: nothing is added
      cases h
      exact ⟨rfl, rfl, .inl ⟨ht, by simp⟩⟩
    · -- a new name, without its quotes, goes last
      next hempty hroom =>
      obtain ⟨name', -, hadd⟩ := Option.bind_eq_some_iff.mp h
      cases hadd
      exact ⟨rfl, rfl, .inr ⟨by omega, rfl, ⟨name'⟩, rfl⟩⟩
  · cases h
    exact ⟨rfl, rfl, .inl ⟨ht, ValueNameHashTable.lt_of_getIndices hfound⟩⟩

/-- On the first bind by name, `get_indices` creates an empty table and sets the flag. -/
lemma getIndices_of_none {q : QueryRequest} (hq : q.valueNames = none) (name : List UInt8) :
    q.getIndices name =
      ({ q with hasNamesForValues := true, valueNames := some ⟨[]⟩ } : QueryRequest).getIndices
        name := by
  unfold getIndices
  simp only [hq]

/-- What `get_indices` does, with or without a table: the elements stay, and the names either
stay, with every index returned that of a name, or take one name more, when there were no more
names than values, whose index is the one returned. -/
theorem getIndices_spec {q q' : QueryRequest} {name : List UInt8} {indices : List Nat}
    (h : q.getIndices name = some (indices, q')) :
    q'.elements = q.elements ∧
      ((q'.names = q.names ∧ ∀ i ∈ indices, i < q.names.length) ∨
        (q.names.length ≤ q.elements.length ∧ indices = [q.names.length] ∧
          ∃ v, q'.names = q.names ++ [v])) := by
  cases hv : q.valueNames with
  | none =>
    rw [getIndices_of_none hv] at h
    obtain ⟨helem, -, hcases⟩ := getIndices_of_table rfl h
    have hnil : q.names = [] := by simp [names, hv]
    refine ⟨helem, ?_⟩
    rcases hcases with ⟨ht, hlt⟩ | ⟨-, hind, v, ht⟩
    · refine .inl ⟨by rw [names_some _ ht, hnil], ?_⟩
      intro i hi
      exact absurd (hlt i hi) (Nat.not_lt_zero i)
    · exact .inr ⟨by simp [hnil], by rw [hind, hnil]; rfl, v, by rw [names_some _ ht, hnil]⟩
  | some t =>
    obtain ⟨helem, -, hcases⟩ := getIndices_of_table hv h
    refine ⟨helem, ?_⟩
    rw [names_some _ hv]
    rcases hcases with ⟨ht, hlt⟩ | ⟨hroom, hind, v, ht⟩
    · exact .inl ⟨names_some _ ht, hlt⟩
    · exact .inr ⟨hroom, hind, v, names_some _ ht⟩

/-! ### What every run of binds keeps -/

/-- What binding by name keeps in a request with `n` values: there are `n` elements, the flag is
set exactly when the table exists, and the table holds at most one name more than there are
values. -/
structure Bound (q : QueryRequest) (n : Nat) : Prop where
  elements : q.elements.length = n
  flag : q.hasNamesForValues = q.valueNames.isSome
  names : q.names.length ≤ n + 1

lemma bound_new (query : List UInt8) (n : Nat) : (QueryRequest.new query n).Bound n where
  elements := by simp [QueryRequest.new, Statement.ofQuery]
  flag := rfl
  names := by simp [QueryRequest.new, names]

/-- `get_indices` keeps `Bound`, and the indices it returns are those of names. -/
theorem Bound.getIndices {q q' : QueryRequest} {n : Nat} {name : List UInt8}
    {indices : List Nat} (hq : q.Bound n) (h : q.getIndices name = some (indices, q')) :
    q'.Bound n := by
  cases hv : q.valueNames with
  | none =>
    -- the first bind by name: the table is created empty, so it ends with at most one name
    rw [getIndices_of_none hv] at h
    obtain ⟨helem, hflag, hcases⟩ := getIndices_of_table rfl h
    refine ⟨by rw [helem]; exact hq.elements, ?_, ?_⟩
    · rcases hcases with ⟨ht, -⟩ | ⟨-, -, v, ht⟩ <;> simp [hflag, ht]
    · rcases hcases with ⟨ht, -⟩ | ⟨-, -, v, ht⟩ <;> simp [names_some _ ht]
  | some t =>
    obtain ⟨helem, hflag, hcases⟩ := getIndices_of_table hv h
    have hflag' : q.hasNamesForValues = true := by rw [hq.flag, hv]; rfl
    refine ⟨by rw [helem]; exact hq.elements, ?_, ?_⟩
    · rcases hcases with ⟨ht, -⟩ | ⟨-, -, v, ht⟩ <;> simp [hflag, hflag', ht]
    · rcases hcases with ⟨ht, -⟩ | ⟨hroom, -, v, ht⟩
      · rw [names_some _ ht, ← names_some _ hv]
        exact hq.names
      · -- a name is added only to a table no larger than the values
        rw [names_some _ ht, List.length_append, List.length_singleton]
        have : t.size ≤ n := hq.elements ▸ hroom
        exact Nat.succ_le_succ this

lemma Bound.setIndices {q : QueryRequest} {n : Nat} (hq : q.Bound n) (value : BoundValue)
    (indices : List Nat) : (q.setIndices value indices).2.Bound n := by
  obtain ⟨hnames, hflag⟩ := q.setIndices_valueNames value indices
  refine ⟨by rw [setIndices_elements_length]; exact hq.elements, by rw [hnames, hflag]; exact hq.flag, ?_⟩
  simp only [QueryRequest.names, hnames]
  exact hq.names

/-- A bind by name keeps `Bound`, whatever it returns. -/
theorem Bound.setByName {q q' : QueryRequest} {n : Nat} {name : List UInt8} {value : BoundValue}
    {rc : CassError} (hq : q.Bound n) (h : q.setByName name value = some (rc, q')) :
    q'.Bound n := by
  unfold QueryRequest.setByName at h
  obtain ⟨⟨indices, q₁⟩, hget, h⟩ := Option.bind_eq_some_iff.mp h
  have h₁ := hq.getIndices hget
  dsimp only at h
  split at h
  · cases h
    exact h₁
  · have hq' : (q₁.setIndices value indices).2 = q' := congrArg Prod.snd (Option.some.inj h)
    rw [← hq']
    exact h₁.setIndices value indices

end QueryRequest

/-- A run of binds by name, each a name and a value, ignoring what each returns; `none` when an
assertion fails. -/
def QueryRequest.bindAll (q : QueryRequest) : List (List UInt8 × BoundValue) → Option QueryRequest
  | [] => some q
  | (name, value) :: rest => do
    let (_, q) ← q.setByName name value
    q.bindAll rest

namespace QueryRequest

/-- Every run of binds by name keeps `Bound`: the values stay, and the table never holds more than
one name more than there are values. -/
theorem Bound.bindAll {n : Nat} :
    ∀ {q q' : QueryRequest} {calls : List (List UInt8 × BoundValue)}, q.Bound n →
      q.bindAll calls = some q' → q'.Bound n
  | q, q', [], hq, h => by
    cases h
    exact hq
  | q, q', (name, value) :: rest, hq, h => by
    unfold QueryRequest.bindAll at h
    obtain ⟨⟨rc, q₁⟩, hset, h⟩ := Option.bind_eq_some_iff.mp h
    exact (hq.setByName hset).bindAll h

end QueryRequest

namespace QueryRequest

/-! ### Binds that succeed -/

/-- A bind that succeeds keeps the table within the values: a name it adds has the index of an
element, since the set at that index succeeded. -/
theorem setByName_ok {q q' : QueryRequest} {name : List UInt8} {value : BoundValue}
    (hq : q.names.length ≤ q.elements.length) (h : q.setByName name value = some (.ok, q')) :
    q'.elements.length = q.elements.length ∧ q'.names.length ≤ q'.elements.length := by
  unfold QueryRequest.setByName at h
  obtain ⟨⟨indices, q₁⟩, hget, h⟩ := Option.bind_eq_some_iff.mp h
  obtain ⟨helem, hcases⟩ := getIndices_spec hget
  dsimp only at h
  split at h
  · cases h
  · have hset : q₁.setIndices value indices = (.ok, q') := Option.some.inj h
    have hlen : q'.elements.length = q.elements.length := by
      rw [← helem, ← q₁.setIndices_elements_length value indices, hset]
    have hnames : q'.names = q₁.names := by
      simp only [QueryRequest.names, ← (q₁.setIndices_valueNames value indices).1, hset]
    have hok := lt_of_setIndices_ok (q := q₁) (by rw [hset])
    refine ⟨hlen, ?_⟩
    rw [hnames, hlen]
    rcases hcases with ⟨hsame, -⟩ | ⟨-, hind, v, hadd⟩
    · rw [hsame]
      exact hq
    · have hlt := hok q.names.length (by simp [hind])
      rw [helem] at hlt
      rw [hadd, List.length_append, List.length_singleton]
      exact hlt

/-! ### Reading the values by name -/

lemma bind_eq_error {ε α β : Type} {x : Except ε α} {f : α → Except ε β} {e : ε}
    (h : x >>= f = .error e) : x = .error e ∨ ∃ a, x = .ok a ∧ f a = .error e := by
  cases x with
  | error e' =>
    cases h
    exact .inl rfl
  | ok a => exact .inr ⟨a, rfl, h⟩

/-- The loop of `encode_values_with_names` reads past the values only at a name whose index is
past them. -/
theorem encodeValuesWithNamesFrom_elementOutOfRange {version : Int} {elements : List Element} :
    ∀ {valueNames : List ValueName} {index : Nat} {size : Int} {bufs : List FixedBuffer} {i : Nat},
      encodeValuesWithNamesFrom version elements index valueNames size bufs =
        .error (.elementOutOfRange i) →
      elements.length ≤ i ∧ i < index + valueNames.length
  | [], _, _, _, _, h => by cases h
  | valueName :: rest, index, size, bufs, i, h => by
    unfold encodeValuesWithNamesFrom at h
    rcases bind_eq_error h with hname | ⟨nameBuf, -, h⟩
    · rw [valueName.buf_eq] at hname
      cases hname
    · rcases bind_eq_error h with helem | ⟨element, helem, h⟩
      · split at helem
        · cases helem
        · next hnone =>
          cases helem
          exact ⟨List.getElem?_eq_none_iff.mp hnone, by simp⟩
      · rcases bind_eq_error h with hbuf | ⟨valueBuf, -, h⟩
        · cases element <;> cases hbuf
        · have := encodeValuesWithNamesFrom_elementOutOfRange h
          simp only [List.length_cons]
          omega

/-- Under `Bound`, `encode_values_with_names` reads past the values only when the table holds one
name more than there are values, and then at the index of that last name. -/
theorem Bound.encodeValuesWithNames_elementOutOfRange {q : QueryRequest} {n : Nat} (hq : q.Bound n)
    {version : Int} {bufs : List FixedBuffer} {i : Nat}
    (h : q.encodeValuesWithNames version bufs = .error (.elementOutOfRange i)) :
    i = n ∧ q.names.length = n + 1 := by
  have hread := encodeValuesWithNamesFrom_elementOutOfRange h
  have hnames := hq.names
  have helem := hq.elements
  omega

/-- A table within the values is read without going past them. -/
theorem encodeValuesWithNames_ne_elementOutOfRange {q : QueryRequest}
    (hq : q.names.length ≤ q.elements.length) (version : Int) (bufs : List FixedBuffer)
    (i : Nat) : q.encodeValuesWithNames version bufs ≠ .error (.elementOutOfRange i) := by
  intro h
  have hread := encodeValuesWithNamesFrom_elementOutOfRange h
  omega

/-! ### A request with no values -/

/-- A query with no values, bound by the name `a`: the empty table holds no more names than the
zero values, so `a` is added with index 0; the set at index 0 then fails with
`CASS_ERROR_LIB_INDEX_OUT_OF_BOUNDS`, but the name stays, and encoding the request reads the
element at index 0 of no elements. -/
theorem setByName_new_zero :
    let q' : QueryRequest :=
      { QueryRequest.new [] 0 with hasNamesForValues := true, valueNames := some ⟨[⟨[97]⟩]⟩ }
    (QueryRequest.new [] 0).setByName [97]
        (.encoded (BigEndian.encodeInt 4 4 ++ BigEndian.encodeInt 4 7)) =
      some (.libIndexOutOfBounds, q') ∧
    q'.names.length = 1 ∧
    q'.encode 4 ⟨1, 0, int64Min, false, none⟩ [] = .error (.elementOutOfRange 0) := by
  refine ⟨rfl, rfl, rfl⟩

/-! ### Lengths -/

/-- The loop of `encode_values_with_names` pushes a name and a value buffer per name and adds
their sizes. -/
theorem encodeValuesWithNamesFrom_returnsPushedSize {version : Int} {elements : List Element} :
    ∀ {valueNames : List ValueName} {index : Nat} {size size' : Int}
      {bufs bufs' : List FixedBuffer},
      encodeValuesWithNamesFrom version elements index valueNames size bufs = .ok (size', bufs') →
      ReturnsPushedSize bufs (size' - size, bufs')
  | [], _, size, size', bufs, bufs', h => by
    cases h
    simpa using returnsPushedSize_nil bufs
  | valueName :: rest, index, size, size', bufs, bufs', h => by
    unfold encodeValuesWithNamesFrom at h
    obtain ⟨nameBuf, -, h⟩ := bind_eq_ok h
    obtain ⟨element, -, h⟩ := bind_eq_ok h
    obtain ⟨valueBuf, -, h⟩ := bind_eq_ok h
    have hname := returnsPushedSize_push bufs nameBuf
    have hvalue := returnsPushedSize_push (bufs ++ [nameBuf]) (FixedBuffer.ofBytes valueBuf)
    rw [FixedBuffer.size_ofBytes, List.append_assoc, List.singleton_append] at hvalue
    exact (hname.trans hvalue rfl).trans (encodeValuesWithNamesFrom_returnsPushedSize h)
      (by ring)

/-- Every successful `QueryRequest::encode`, by position or by name, returns the total size of
the buffers it pushed. -/
theorem encode_returnsPushedSize {q : QueryRequest} {version : Int}
    {callback : RequestCallback} {bufs : List FixedBuffer} {r : Int × List FixedBuffer}
    (h : q.encode version callback bufs = .ok r) : ReturnsPushedSize bufs r := by
  unfold QueryRequest.encode at h
  split at h
  · exact q.encodeV1_returnsPushedSize callback h
  · obtain ⟨⟨length, result, bufs₁⟩, hmid, h⟩ := bind_eq_ok h
    obtain ⟨⟨finish, bufs₂⟩, hend, hpure⟩ := bind_eq_ok h
    cases hpure
    have hid := q.returnsPushedSize_encodeQueryOrId bufs
    -- the begin buffer and the values, by name or by position
    have hvalues : ReturnsPushedSize bufs (length + result, bufs₁) := by
      split at hmid
      · obtain ⟨⟨begin, bufs₃⟩, hbeginEq, hmid⟩ := bind_eq_ok hmid
        obtain ⟨⟨result', bufs₄⟩, hnamed, hpure⟩ := bind_eq_ok hmid
        rw [Statement.encodeBegin_eq] at hbeginEq
        cases hbeginEq
        cases hpure
        have hbegin := q.returnsPushedSize_encodeBegin version callback
          (toUint16 q.names.length) (q.encodeQueryOrId bufs).2
        have hnamed' := encodeValuesWithNamesFrom_returnsPushedSize hnamed
        rw [sub_zero] at hnamed'
        exact (hid.trans hbegin rfl).trans hnamed' rfl
      · obtain ⟨⟨begin, bufs₃⟩, hbeginEq, hmid⟩ := bind_eq_ok hmid
        obtain ⟨⟨result', bufs₄⟩, hpos, hpure⟩ := bind_eq_ok hmid
        rw [Statement.encodeBegin_eq] at hbeginEq
        cases hbeginEq
        cases hpure
        have hbegin := q.returnsPushedSize_encodeBegin version callback
          (toUint16 q.elements.length) (q.encodeQueryOrId bufs).2
        exact (hid.trans hbegin rfl).trans (q.encodeValues_returnsPushedSize version hpos) rfl
    exact hvalues.trans (q.encodeEnd_returnsPushedSize version callback hend) rfl

end QueryRequest

end CassandraDriver
