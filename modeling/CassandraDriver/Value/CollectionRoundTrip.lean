import CassandraDriver.Value.Collection

/-!
# Collections round-trip through the wire format

From protocol version 3 on, a collection that `Collection::encode_with_length` encodes and that
comes back as the column of a row reads back, through a `CollectionIterator`, as the items it
was built from, nested collections included, and a `MapIterator` visits the items of a map in
pairs. Sizes on the wire are `int`s, so the law holds for encodings below `2 ^ 31` bytes; a
longer one has a negative length field and the column reads as null.

The encoder's side is a statement about lengths: every buffer is filled exactly. The reader's
side is proved one level at a time: a step of the iterator reads the `[int size][bytes]` block
at its position (`next_block`), a run reads all the blocks of a level (`valuesAux_blocks`), and
an induction on the depth reads the levels below.
-/

namespace CassandraDriver

namespace Collection

variable (c : Collection)

private lemma foldl_getItemsSize (n a : Nat) (items : List (List UInt8)) :
    items.foldl (fun size i => size + n + i.length) a =
      a + (items.map fun i => n + i.length).sum := by
  induction items generalizing a with
  | nil => simp
  | cons i items ih =>
    rw [List.foldl_cons, ih, List.map_cons, List.sum_cons]
    omega

lemma getItemsSize_eq (n : Nat) : c.getItemsSize n = (c.items.map fun i => n + i.length).sum := by
  rw [getItemsSize, foldl_getItemsSize, Nat.zero_add]

private lemma length_flatMap_blocks (w : Nat) (items : List (List UInt8)) :
    (items.flatMap fun i => BigEndian.encode w i.length ++ i).length =
      (items.map fun i => w + i.length).sum := by
  induction items with
  | nil => rfl
  | cons i items ih =>
    rw [List.flatMap_cons, List.length_append, ih, List.length_append, BigEndian.length_encode,
      List.map_cons, List.sum_cons]

@[simp] lemma length_encodeItemsInt32 : c.encodeItemsInt32.length = c.getItemsSize 4 := by
  rw [encodeItemsInt32, length_flatMap_blocks, getItemsSize_eq]

@[simp] lemma length_encodeItemsUint16 : c.encodeItemsUint16.length = c.getItemsSize 2 := by
  rw [encodeItemsUint16, length_flatMap_blocks, getItemsSize_eq]

/-- `encode` fills the buffer of `4 + get_items_size(4)` bytes it allocates. -/
lemma length_encode : c.encode.length = 4 + c.getItemsSize 4 := by
  simp [encode]

/-- `encode_with_length` fills the buffer of `get_size_with_length` bytes it allocates, in
every protocol version. -/
lemma length_encodeWithLength (version : Int) :
    (c.encodeWithLength version).length = c.getSizeWithLength version := by
  unfold encodeWithLength getSizeWithLength
  split <;> simp

/-- From version 3 on, `encode_with_length` is `encode` behind its length. -/
lemma encodeWithLength_of_three_le {version : Int} (hv : 3 ≤ version) :
    c.encodeWithLength version = BigEndian.encode 4 c.encode.length ++ c.encode := by
  simp [encodeWithLength, hv, encode]

lemma getCount_le_getItemsSize : c.getCount ≤ c.getItemsSize 4 := by
  have hlen : c.items.length ≤ (c.items.map fun i => 4 + i.length).sum := by
    induction c.items with
    | nil => simp
    | cons i items ih =>
      simp only [List.length_cons, List.map_cons, List.sum_cons]
      omega
  rw [getItemsSize_eq]
  unfold getCount
  split <;> omega

end Collection

/-- The four bytes of a number laid out at a position read back there as a signed `int`. -/
lemma decodeInt32_encode_eq_toInt (n : Nat) (pre rest : List UInt8) :
    decodeInt32 (pre ++ BigEndian.encode 4 n ++ rest) pre.length =
      some (BigEndian.toInt 4 (n % 256 ^ 4)) := by
  have hslice := BigEndian.slice_append pre (BigEndian.encode 4 n) rest
  rw [BigEndian.length_encode] at hslice
  rw [decodeInt32, hslice, Option.map_some, BigEndian.decodeInt, BigEndian.length_encode,
    BigEndian.decode_encode]

/-- An `int` laid out at a position is read back there. -/
lemma decodeInt32_encode {n : Nat} (hn : n < 2 ^ 31) (pre rest : List UInt8) :
    decodeInt32 (pre ++ BigEndian.encode 4 n ++ rest) pre.length = some (n : Int) := by
  rw [decodeInt32_encode_eq_toInt, Nat.mod_eq_of_lt (by omega), BigEndian.toInt,
    if_pos (by omega)]

/-- An `int` size is read back where it was laid out, from version 3 on. -/
lemma decodeSize_encode {version : Int} (hv : 3 ≤ version) {n : Nat} (hn : n < 2 ^ 31)
    (pre rest : List UInt8) :
    decodeSize version (pre ++ BigEndian.encode 4 n ++ rest) pre.length =
      some ((pre.length : Int) + 4, (n : Int)) := by
  rw [decodeSize, if_pos hv, decodeInt32_encode hn, Option.map_some]

/-! ### Steps of the iterators -/

namespace CollectionIterator

variable {mem : List UInt8} {it : CollectionIterator}

/-- Once the index reaches the count, `next` answers `false` and changes nothing. -/
lemma next_of_count_le (h : it.count ≤ it.index + 1) : it.next mem = some (false, it) := by
  rw [next, if_pos h]

lemma valuesAux_of_count_le (h : it.count ≤ it.index + 1) (fuel : Nat) :
    it.valuesAux mem fuel = some [] := by
  cases fuel with
  | zero => rfl
  | succ fuel => simp [valuesAux, next_of_count_le h]

/-- Before the count, `next` reads the `[int size][bytes]` block at its position. -/
lemma next_block {pre x rest : List UInt8} {w : Value}
    (hv : 3 ≤ it.collection.protocolVersion) (hlt : it.index + 1 < it.count)
    (hmem : mem = pre ++ BigEndian.encode 4 x.length ++ (x ++ rest))
    (hpos : it.position = pre.length) (hx : x.length < 2 ^ 31)
    (hw : Value.make mem it.collection.protocolVersion
      (itemDataType it.collection (it.index + 1)) (pre.length + 4) x.length = some w) :
    it.next mem =
      some (true, { it with
        index := it.index + 1
        value := w
        position := pre.length + 4 + x.length }) := by
  have hsize : decodeSize it.collection.protocolVersion mem it.position =
      some ((pre.length : Int) + 4, (x.length : Int)) := by
    rw [hmem, hpos]
    exact decodeSize_encode hv hx pre (x ++ rest)
  rw [next, if_neg (Int.not_le.2 hlt)]
  simp [decodeValue, hsize, hw]

end CollectionIterator

/-! ### Items and what a client reads back -/

/-- An item a client puts into a collection: the encoding of a simple value, or a nested
collection of items. -/
inductive Item where
  | simple (bytes : List UInt8)
  | collection (type : ValueType) (items : List Item)

namespace Item

/-- The bytes `Collection::append` stores for an item: a nested collection is encoded. -/
def encode : Item → List UInt8
  | simple bytes => bytes
  | collection type items => (Collection.mk type (encodeList items)).encode
where
  /-- The bytes of a list of items. -/
  encodeList : List Item → List (List UInt8)
    | [] => []
    | t :: ts => encode t :: encodeList ts

@[simp] lemma encodeList_eq (ts : List Item) : encode.encodeList ts = ts.map encode := by
  induction ts with
  | nil => rfl
  | cons t ts ih => rw [encode.encodeList, ih, List.map_cons]

lemma encode_collection (type : ValueType) (items : List Item) :
    (collection type items).encode =
      BigEndian.encode 4 (Collection.mk type (items.map encode)).getCount ++
        (items.map encode).flatMap fun x => BigEndian.encode 4 x.length ++ x := by
  rw [encode, encodeList_eq]
  rfl

/-- A nested item is shorter than the collection around it by its block and the count. -/
lemma length_encode_lt {type : ValueType} {items : List Item} {t : Item} (h : t ∈ items) :
    t.encode.length + 8 ≤ (collection type items).encode.length := by
  have hmem : 4 + t.encode.length ∈ (items.map encode).map fun x => 4 + x.length := by
    simp only [List.map_map, List.mem_map, Function.comp_apply]
    exact ⟨t, h, rfl⟩
  have hle := List.le_sum_of_mem hmem
  rw [encode, encodeList_eq, Collection.length_encode, Collection.getItemsSize_eq]
  dsimp only
  omega

/-- The type a `CollectionIterator` over a collection of type `dt` reads its item at `index`
with: the element type, or the key and value types of a map in turn. -/
def itemType (dt : DataType) (index : Nat) : DataType :=
  CollectionIterator.itemDataType (Value.null dt) index

/-- An item fits a type: a simple item any type that is not a collection, a nested collection
the collection type of its kind, each of its items fitting the type it is read with, and a map
an even number of items. -/
inductive Fits : Item → DataType → Prop
  | simple {bytes : List UInt8} {dt : DataType} (hnil : dt.isNil = false)
      (hcoll : dt.isCollection = false) : Fits (.simple bytes) dt
  | collection {type : ValueType} {items : List Item} {dt : DataType}
      (hcoll : dt.isCollection = true) (htype : dt.valueType = type)
      (heven : type = .map → Even items.length)
      (hitems : ∀ p ∈ items.zipIdx, Fits p.1 (itemType dt p.2)) :
      Fits (.collection type items) dt

end Item

/-- What a client reads back from a value, down to `depth` levels: the bytes of a value that is
not a collection, and the items of a collection, visited with a `CollectionIterator`. -/
def readItem (mem : List UInt8) : Nat → Value → Option Item
  | 0, _ => none
  | depth + 1, v =>
    if v.isCollection then do
      let values ← (CollectionIterator.new v).values mem
      let items ← values.mapM (readItem mem depth)
      some (.collection v.valueType items)
    else if v.isNull then none
    else (BigEndian.slice mem v.data v.size.toNat).map .simple

/-- Every item shorter than `depth` and than the `int` range that fits its type is read back
from wherever it lies in a buffer. -/
def ReadsBack (version : Int) (depth : Nat) : Prop :=
  ∀ (t : Item) (dt : DataType), t.Fits dt → t.encode.length < 2 ^ 31 →
    t.encode.length < depth → ∀ pre post : List UInt8,
      ∃ v, Value.make (pre ++ t.encode ++ post) version dt pre.length t.encode.length = some v ∧
        readItem (pre ++ t.encode ++ post) depth v = some t

lemma itemDataType_eq_itemType (v : Value) (k : Nat) :
    CollectionIterator.itemDataType v k = Item.itemType v.dataType k := rfl

/-- A run of the iterator over the `[int size][bytes]` blocks of a level reads every item back,
given that each shorter item reads back wherever it lies. -/
lemma valuesAux_blocks {version : Int} (hv : 3 ≤ version) {depth : Nat}
    (hread : ReadsBack version depth) {mem rest : List UInt8} (xs : List Item) :
    ∀ (pre : List UInt8) (it : CollectionIterator) (k fuel : Nat),
      mem = pre ++ (xs.map Item.encode).flatMap (fun x => BigEndian.encode 4 x.length ++ x) ++
        rest →
      it.collection.protocolVersion = version → it.position = pre.length →
      it.index + 1 = k → it.count = k + xs.length → xs.length < fuel →
      (∀ p ∈ xs.zipIdx k, p.1.Fits (Item.itemType it.collection.dataType p.2)) →
      (∀ x ∈ xs, x.encode.length < 2 ^ 31 ∧ x.encode.length < depth) →
      ∃ values, it.valuesAux mem fuel = some values ∧
        values.mapM (readItem mem depth) = some xs := by
  induction xs with
  | nil =>
    intro pre it k fuel _ _ _ hk hcount _ _ _
    rw [List.length_nil, Nat.cast_zero, add_zero] at hcount
    exact ⟨[], CollectionIterator.valuesAux_of_count_le (by omega) fuel, rfl⟩
  | cons x xs ih =>
    intro pre it k fuel hmem hver hpos hk hcount hfuel hfits hbounds
    rw [List.length_cons, Nat.cast_add, Nat.cast_one] at hcount
    obtain ⟨fuel, rfl⟩ : ∃ f, fuel = f + 1 := ⟨fuel - 1, by simp at hfuel; omega⟩
    obtain ⟨hx31, hxd⟩ := hbounds x (by simp)
    have hfx : x.Fits (Item.itemType it.collection.dataType k) :=
      hfits (x, k) (by simp [List.zipIdx_cons])
    -- the block of `x`: its size, its bytes, then the blocks of the other items
    set others := (xs.map Item.encode).flatMap fun x => BigEndian.encode 4 x.length ++ x
    have hmem' : mem = pre ++ BigEndian.encode 4 x.encode.length ++ x.encode ++ (others ++ rest) := by
      rw [hmem]
      simp [others]
    obtain ⟨w, hw, hreadx⟩ :=
      hread x _ hfx hx31 hxd (pre ++ BigEndian.encode 4 x.encode.length) (others ++ rest)
    rw [← hmem', List.length_append, BigEndian.length_encode, Nat.cast_add] at hw
    rw [← hmem'] at hreadx
    have hblock : mem = pre ++ BigEndian.encode 4 x.encode.length ++ (x.encode ++ (others ++ rest)) := by
      rw [hmem']
      simp
    have hstep := CollectionIterator.next_block (hver ▸ hv) (by omega) hblock hpos hx31
      (by rw [hver, hk, itemDataType_eq_itemType]; exact_mod_cast hw)
    have hmem'' : mem = pre ++ BigEndian.encode 4 x.encode.length ++ x.encode ++ others ++ rest := by
      rw [hmem']
      simp
    have hpos' : ((pre ++ BigEndian.encode 4 x.encode.length ++ x.encode).length : Int) =
        pre.length + 4 + x.encode.length := by
      simp only [List.length_append, BigEndian.length_encode, Nat.cast_add]
      push_cast
      ring
    -- the iterator after the step stands at the next block
    let it' : CollectionIterator :=
      { it with
        index := it.index + 1
        value := w
        position := pre.length + 4 + x.encode.length }
    obtain ⟨values, hvalues, hmapM⟩ :=
      ih (pre ++ BigEndian.encode 4 x.encode.length ++ x.encode) it' (k + 1) fuel hmem'' hver
        hpos'.symm (by simp only [it', Nat.cast_add, Nat.cast_one]; omega)
        (by simp only [it', Nat.cast_add, Nat.cast_one]; omega)
        (by simp only [List.length_cons] at hfuel; omega)
        (fun p hp => hfits p (by simp [List.zipIdx_cons, hp]))
        (fun y hy => hbounds y (by simp [hy]))
    refine ⟨w :: values, ?_, ?_⟩
    · rw [CollectionIterator.valuesAux, hstep]
      simp [it'] at hvalues
      simp [hvalues]
    · simp [List.mapM_cons, hreadx, hmapM]

/-- Every item that fits its type reads back from wherever its encoding lies in a buffer, from
version 3 on, at every depth above the length of its encoding. -/
theorem readsBack {version : Int} (hv : 3 ≤ version) (depth : Nat) : ReadsBack version depth := by
  induction depth with
  | zero =>
    intro t dt _ _ hlen
    exact absurd hlen (Nat.not_lt_zero _)
  | succ depth ih =>
    intro t dt hfits h31 hlen pre post
    cases hfits with
    | simple hnil hcoll =>
      rename_i bytes
      -- a simple value points at its bytes
      refine ⟨_, Value.make_of_not_isCollection hnil hcoll, ?_⟩
      have hslice := BigEndian.slice_append pre bytes post
      rw [List.append_assoc] at hslice
      have hnull : ¬ ((bytes.length : Int) < 0) := by omega
      simp [readItem, Value.isCollection, hcoll, Value.isNull, Item.encode, hnull, hslice]
    | collection hcoll htype heven hitems =>
      rename_i type items
      set c : Collection := ⟨type, items.map Item.encode⟩ with hc
      set blocks := (items.map Item.encode).flatMap fun x => BigEndian.encode 4 x.length ++ x
      have henc : (Item.collection type items).encode = BigEndian.encode 4 c.getCount ++ blocks :=
        Item.encode_collection type items
      have hlenc : (Item.collection type items).encode.length = 4 + c.getItemsSize 4 := by
        rw [Item.encode, Item.encodeList_eq, Collection.length_encode]
      have hcount31 : c.getCount < 2 ^ 31 := by
        have := c.getCount_le_getItemsSize
        omega
      -- the value reads the count and points after it
      have hsize : decodeSize version (pre ++ (Item.collection type items).encode ++ post)
          pre.length = some ((pre.length : Int) + 4, (c.getCount : Int)) := by
        rw [henc, List.append_assoc, List.append_assoc, ← List.append_assoc pre]
        exact decodeSize_encode hv hcount31 pre (blocks ++ post)
      have hmake := Value.make_of_isCollection hcoll
        (show (0 : Int) < (Item.collection type items).encode.length by omega) hsize
      refine ⟨_, hmake, ?_⟩
      -- the iterator walks the blocks of the items
      let v : Value := ⟨version, dt, c.getCount, pre.length + 4,
        if version ≥ 3 then ((Item.collection type items).encode.length : Int) - 4
        else ((Item.collection type items).encode.length : Int) - 2⟩
      have hcount : (CollectionIterator.new v).count = items.length := by
        simp only [CollectionIterator.new, Value.valueType, v, htype, c, Collection.getCount,
          List.length_map]
        by_cases hmap : type = .map
        · obtain ⟨n, hn⟩ := heven hmap
          simp [hmap, hn]
          omega
        · simp [hmap]
      obtain ⟨values, hvalues, hmapM⟩ :=
        valuesAux_blocks hv ih items (pre ++ BigEndian.encode 4 c.getCount)
          (CollectionIterator.new v) 0 (items.length + 1)
          (show pre ++ (Item.collection type items).encode ++ post =
            pre ++ BigEndian.encode 4 c.getCount ++ blocks ++ post by rw [henc]; simp)
          rfl (by simp [CollectionIterator.new, v]) (by rfl) (by rw [hcount]; simp) (by omega)
          hitems
          (fun x hx => by
            have := @Item.length_encode_lt type items x hx
            omega)
      have hfuel : ((CollectionIterator.new v).count - (CollectionIterator.new v).index).toNat =
          items.length + 1 := by
        rw [hcount]
        simp [CollectionIterator.new]
      simp only [readItem, Value.isCollection, v, hcoll, if_true, CollectionIterator.values,
        hfuel, hvalues, Option.bind_eq_bind, Option.bind_some, hmapM, Value.valueType, htype]

/-! ### Maps visited in pairs -/

/-- Consecutive elements in pairs, an odd last one dropped. -/
def pairUp {α : Type} : List α → List (α × α)
  | a :: b :: rest => (a, b) :: pairUp rest
  | _ => []

namespace CollectionIterator

variable {mem : List UInt8}

/-- The loop of `values` ends within its fuel: more fuel changes nothing. -/
lemma valuesAux_of_le : ∀ (fuel : Nat) (it : CollectionIterator),
    (it.count - it.index).toNat ≤ fuel → it.valuesAux mem fuel = it.values mem
  | 0, it, h => by
    rw [values, show (it.count - it.index).toNat = 0 by omega]
  | fuel + 1, it, h => by
    by_cases hc : it.count ≤ it.index + 1
    · rw [values, valuesAux_of_count_le hc, valuesAux_of_count_le hc]
    · obtain ⟨k, hk⟩ : ∃ k, (it.count - it.index).toNat = k + 1 := ⟨_, (Nat.succ_pred_eq_of_pos
        (by omega)).symm⟩
      rw [values, hk, valuesAux, valuesAux]
      cases hn : it.next mem with
      | none => rfl
      | some r =>
        obtain ⟨more, it'⟩ := r
        -- a step raises the index by one and keeps the count
        have hstep : it'.count = it.count ∧ it'.index = it.index + 1 := by
          rw [next, if_neg hc] at hn
          simp only [Option.map_eq_some_iff] at hn
          obtain ⟨_, _, hr⟩ := hn
          cases hr
          exact ⟨rfl, rfl⟩
        have hle : (it'.count - it'.index).toNat ≤ fuel := by omega
        have hk' : (it'.count - it'.index).toNat ≤ k := by omega
        simp only [Option.bind_eq_bind, Option.bind_some]
        rw [valuesAux_of_le fuel it' hle, ← valuesAux_of_le k it' hk']

end CollectionIterator

namespace MapIterator

variable {mem : List UInt8}

lemma next_of_count_le {it : MapIterator} (h : it.count ≤ it.index + 1) :
    it.next mem = some (false, it) := by
  rw [next, if_pos h]

lemma pairsAux_of_count_le {it : MapIterator} (h : it.count ≤ it.index + 1) (fuel : Nat) :
    it.pairsAux mem fuel = some [] := by
  cases fuel with
  | zero => rfl
  | succ fuel => simp [pairsAux, next_of_count_le h]

/-- The loop of `pairs` ends within its fuel: more fuel changes nothing. -/
lemma pairsAux_of_le : ∀ (fuel : Nat) (it : MapIterator),
    (it.count - it.index).toNat ≤ fuel → it.pairsAux mem fuel = it.pairs mem
  | 0, it, h => by
    rw [pairs, show (it.count - it.index).toNat = 0 by omega]
  | fuel + 1, it, h => by
    by_cases hc : it.count ≤ it.index + 1
    · rw [pairs, pairsAux_of_count_le hc, pairsAux_of_count_le hc]
    · obtain ⟨k, hk⟩ : ∃ k, (it.count - it.index).toNat = k + 1 := ⟨_, (Nat.succ_pred_eq_of_pos
        (by omega)).symm⟩
      rw [pairs, hk, pairsAux, pairsAux]
      cases hn : it.next mem with
      | none => rfl
      | some r =>
        obtain ⟨more, it'⟩ := r
        have hstep : it'.count = it.count ∧ it'.index = it.index + 1 := by
          rw [next, if_neg hc] at hn
          simp only [Option.map_eq_some_iff] at hn
          obtain ⟨_, _, hr⟩ := hn
          cases hr
          exact ⟨rfl, rfl⟩
        have hle : (it'.count - it'.index).toNat ≤ fuel := by omega
        have hk' : (it'.count - it'.index).toNat ≤ k := by omega
        simp only [Option.bind_eq_bind, Option.bind_some]
        rw [pairsAux_of_le fuel it' hle, ← pairsAux_of_le k it' hk']

end MapIterator

lemma itemDataType_of_even {coll : Value} {k : Int} (hmap : coll.valueType = .map)
    (hk : k % 2 = 0) : CollectionIterator.itemDataType coll k = coll.primaryDataType := by
  rw [CollectionIterator.itemDataType, if_pos hmap, if_pos hk]

lemma itemDataType_of_odd {coll : Value} {k : Int} (hmap : coll.valueType = .map)
    (hk : k % 2 = 1) : CollectionIterator.itemDataType coll k = coll.secondaryDataType := by
  rw [CollectionIterator.itemDataType, if_pos hmap, if_neg (by omega)]

/-- A `MapIterator` reads, pair by pair, what a `CollectionIterator` over the same map reads
item by item, from any buffer: at each pair the two stand at the same position, the collection
index twice the map index plus one. -/
lemma pairsAux_eq_valuesAux {mem : List UInt8} (n : Nat) : ∀ (mit : MapIterator)
    (cit : CollectionIterator), cit.collection = mit.map → mit.map.valueType = .map →
    cit.position = mit.position → cit.index = 2 * mit.index + 1 → cit.count = 2 * mit.count →
    mit.pairsAux mem n = (cit.valuesAux mem (2 * n)).map pairUp := by
  induction n with
  | zero => intro mit cit _ _ _ _ _; rfl
  | succ n ih =>
    intro mit cit hcoll hmap hpos hindex hcount
    by_cases hc : mit.count ≤ mit.index + 1
    · rw [MapIterator.pairsAux_of_count_le hc,
        CollectionIterator.valuesAux_of_count_le (by omega)]
      rfl
    -- the key is the item at an even index, the value the one after it
    have hkey : CollectionIterator.itemDataType mit.map (cit.index + 1) =
        mit.map.primaryDataType :=
      itemDataType_of_even hmap (by omega)
    have hvalue : CollectionIterator.itemDataType mit.map (cit.index + 1 + 1) =
        mit.map.secondaryDataType :=
      itemDataType_of_odd hmap (by omega)
    have hc₁ : ¬ cit.count ≤ cit.index + 1 := by omega
    have hc₂ : ¬ cit.count ≤ cit.index + 1 + 1 := by omega
    rw [show 2 * (n + 1) = 2 * n + 1 + 1 by ring]
    simp only [MapIterator.pairsAux, MapIterator.next, if_neg hc, MapIterator.decodePair,
      CollectionIterator.valuesAux, CollectionIterator.next, if_neg hc₁,
      CollectionIterator.decodeValue, hcoll, hkey, hpos]
    -- follow the four reads of `decode_pair`
    cases h₁ : decodeSize mit.map.protocolVersion mem mit.position with
    | none => rfl
    | some r₁ =>
      obtain ⟨p₁, s₁⟩ := r₁
      cases h₂ : Value.make mem mit.map.protocolVersion mit.map.primaryDataType p₁ s₁ with
      | none => simp [h₂]
      | some key =>
        simp only [Option.bind_eq_bind, Option.bind_some]
        cases h₃ : decodeSize mit.map.protocolVersion mem (p₁ + s₁) with
        | none => simp [h₂, h₃, hc₂]
        | some r₃ =>
          obtain ⟨p₃, s₃⟩ := r₃
          cases h₄ : Value.make mem mit.map.protocolVersion mit.map.secondaryDataType p₃ s₃ with
          | none => simp [h₂, h₃, h₄, hc₂, hvalue]
          | some value =>
            -- both iterators now stand after the pair
            have hrest := ih ⟨mit.map, p₃ + s₃, key, value, mit.index + 1, mit.count⟩
              ⟨mit.map, p₃ + s₃, cit.index + 1 + 1, cit.count, value⟩ rfl hmap rfl
              (by simp only [hindex]; ring) (by simp only [hcount])
            simp only [h₂, h₃, h₄, Option.bind_some, Option.map_some, if_true, hvalue]
            simp [hc₂, hrest]
            cases CollectionIterator.valuesAux mem (2 * n) ⟨mit.map, p₃ + s₃, cit.index + 1 + 1,
              cit.count, value⟩ <;> simp [pairUp]

/-- Over any map value and any buffer, a `MapIterator` visits in pairs the items a
`CollectionIterator` visits. -/
theorem pairs_new_eq {mem : List UInt8} {v : Value} (hmap : v.valueType = .map) :
    (MapIterator.new v).pairs mem = ((CollectionIterator.new v).values mem).map pairUp := by
  have hpairs : (MapIterator.new v).pairs mem =
      (MapIterator.new v).pairsAux mem (v.count.toNat + 1) := by
    refine (MapIterator.pairsAux_of_le _ _ ?_).symm
    simp only [MapIterator.new]
    omega
  have hvalues : (CollectionIterator.new v).values mem =
      (CollectionIterator.new v).valuesAux mem (2 * (v.count.toNat + 1)) := by
    refine (CollectionIterator.valuesAux_of_le _ _ ?_).symm
    simp only [CollectionIterator.new, hmap, if_true]
    omega
  rw [hpairs, hvalues]
  exact pairsAux_eq_valuesAux _ _ _ rfl hmap rfl (by rfl)
    (by simp only [CollectionIterator.new, MapIterator.new, hmap, if_true])

/-! ### The round trip -/

/-- `decode_row` reads a column whose `[bytes]` lie at its position. -/
lemma decodeRow_bytes {version : Int} {dt : DataType} {pre bytes post : List UInt8}
    (hb : bytes.length < 2 ^ 31) {v : Value}
    (hv : Value.make (pre ++ BigEndian.encode 4 bytes.length ++ bytes ++ post) version dt
      (pre.length + 4) bytes.length = some v) :
    decodeRow (pre ++ BigEndian.encode 4 bytes.length ++ bytes ++ post) version [dt] pre.length =
      some ([v], (pre.length : Int) + 4 + bytes.length) := by
  have hsize := decodeInt32_encode hb pre (bytes ++ post)
  rw [← List.append_assoc] at hsize
  have hnn : (0 : Int) ≤ bytes.length := Int.natCast_nonneg _
  simp only [decodeRow, hsize, Option.bind_eq_bind, Option.bind_some, if_pos hnn, hv]

/-- From protocol version 3 on, take a collection of items that fit its type and are encoded in
fewer than `2 ^ 31` bytes. `encode_with_length` fills the `get_size_with_length` bytes it
allocates with `[int total][int count][[bytes] item]*`: the total counts the bytes after it and
the count the items, or the pairs of a map. The column that `decode_row` reads from those bytes,
anywhere in a buffer, reads back as the items, nested collections included, and a
`MapIterator` visits the items of a map in pairs. -/
theorem encodeWithLength_readItem {version : Int} (hv : 3 ≤ version) {type : ValueType}
    {items : List Item} {dt : DataType} (hfits : (Item.collection type items).Fits dt)
    (hsize : (Item.collection type items).encode.length < 2 ^ 31) (pre post : List UInt8) :
    let c : Collection := ⟨type, items.map Item.encode⟩
    let bytes := c.encodeWithLength version
    let mem := pre ++ bytes ++ post
    bytes.length = c.getSizeWithLength version ∧
    decodeInt32 mem pre.length = some ((bytes.length : Int) - 4) ∧
    decodeInt32 mem (pre.length + 4) =
      some ((if type = .map then items.length / 2 else items.length : Nat) : Int) ∧
    ∃ v, decodeRow mem version [dt] pre.length =
        some ([v], ((pre.length + bytes.length : Nat) : Int)) ∧
      readItem mem bytes.length v = some (.collection type items) ∧
      (type = .map → (MapIterator.new v).pairs mem =
        ((CollectionIterator.new v).values mem).map pairUp) := by
  intro c bytes mem
  have henc : (Item.collection type items).encode = c.encode := by
    rw [Item.encode, Item.encodeList_eq]
  have hbytes : bytes = BigEndian.encode 4 c.encode.length ++ c.encode :=
    c.encodeWithLength_of_three_le hv
  have hlen : bytes.length = 4 + c.encode.length := by
    rw [hbytes, List.length_append, BigEndian.length_encode]
  rw [henc] at hsize
  have hcount : c.getCount < 2 ^ 31 := by
    have := c.getCount_le_getItemsSize
    rw [Collection.length_encode] at hsize
    omega
  have hmem : mem = pre ++ BigEndian.encode 4 c.encode.length ++ c.encode ++ post := by
    simp [mem, hbytes]
  -- the two `int`s in front
  have htotal : decodeInt32 mem pre.length = some ((bytes.length : Int) - 4) := by
    have h := decodeInt32_encode hsize pre (c.encode ++ post)
    rw [← List.append_assoc] at h
    rw [hmem, h, hlen]
    push_cast
    ring_nf
  have hcountAt : decodeInt32 mem (pre.length + 4) = some (c.getCount : Int) := by
    have h := decodeInt32_encode hcount (pre ++ BigEndian.encode 4 c.encode.length)
      (c.encodeItemsInt32 ++ post)
    rw [List.length_append, BigEndian.length_encode] at h
    simp only [mem, hbytes, Collection.encode, List.append_assoc] at h ⊢
    exact_mod_cast h
  refine ⟨c.length_encodeWithLength version, htotal, ?_, ?_⟩
  · rw [hcountAt]
    simp [c, Collection.getCount]
  -- the column: its value reads back as the items
  obtain ⟨v, hmake, hread⟩ := readsBack hv bytes.length _ dt hfits (by rw [henc]; exact hsize)
    (by rw [henc, hlen]; omega) (pre ++ BigEndian.encode 4 c.encode.length) post
  rw [henc, List.length_append, BigEndian.length_encode, Nat.cast_add] at hmake
  rw [henc] at hread
  refine ⟨v, ?_, ?_, ?_⟩
  · rw [hmem, decodeRow_bytes hsize (by exact_mod_cast hmake), hlen]
    push_cast
    ring_nf
  · rw [hmem]
    exact hread
  · intro hmap
    apply pairs_new_eq
    rw [Value.valueType, Value.dataType_of_make hmake]
    cases hfits with
    | collection _ htype _ _ => rw [htype, hmap]

theorem encodeWithLength_readItem_intList :
    let items : List Item := [.simple [0, 0, 0, 1], .simple [0, 0, 0, 2]]
    let dt : DataType := .collection .list [.primitive .int] false
    (Item.collection .list items).Fits dt ∧ (Item.collection .list items).encode.length < 2 ^ 31 ∧
      let bytes := (Collection.mk .list (items.map Item.encode)).encodeWithLength 3
      ∃ v, decodeRow bytes 3 [dt] 0 = some ([v], (bytes.length : Int)) ∧
        readItem bytes bytes.length v = some (.collection .list items) := by
  intro items dt
  have hfits : (Item.collection .list items).Fits dt := by
    refine Item.Fits.collection rfl rfl (fun h => by cases h) ?_
    intro p hp
    simp only [items, List.zipIdx_cons, List.zipIdx_nil, List.mem_cons, List.not_mem_nil,
      or_false] at hp
    rcases hp with rfl | rfl <;> exact Item.Fits.simple rfl rfl
  have hsize : (Item.collection .list items).encode.length < 2 ^ 31 := by decide
  obtain ⟨-, -, -, v, hrow, hread, -⟩ :=
    encodeWithLength_readItem (show (3 : Int) ≤ 3 by norm_num) hfits hsize [] []
  refine ⟨hfits, hsize, v, ?_, ?_⟩
  · simpa using hrow
  · simpa using hread

/-- An encoding of `2 ^ 31` bytes or more overflows its `int` length: a list holding one item of
`2 ^ 31` bytes gets a negative length, and the column reads as null. -/
theorem decodeRow_encodeWithLength_overflow (dt : DataType) (post : List UInt8) :
    decodeRow ((Collection.mk .list [List.replicate (2 ^ 31) 0]).encodeWithLength 3 ++ post) 3
      [dt] 0 = some ([Value.null dt], 4) := by
  -- the item stays symbolic: only its length matters, and unfolding it would build it
  generalize hx : List.replicate (2 ^ 31) (0 : UInt8) = x
  have hxlen : x.length = 2 ^ 31 := by rw [← hx, List.length_replicate]
  set c : Collection := ⟨.list, [x]⟩
  have hlen : c.encode.length = 2 ^ 31 + 8 := by
    rw [Collection.length_encode, Collection.getItemsSize_eq]
    simp only [c, List.map_cons, List.map_nil, List.sum_cons, List.sum_nil, hxlen]
    omega
  have hsize : decodeInt32 (c.encodeWithLength 3 ++ post) 0 = some (2 ^ 31 + 8 - 2 ^ 32) := by
    -- the length becomes a literal first, so that no step unfolds arithmetic on it
    rw [c.encodeWithLength_of_three_le (by norm_num), List.append_assoc, hlen]
    have h := decodeInt32_encode_eq_toInt (2 ^ 31 + 8) [] (c.encode ++ post)
    simp only [List.nil_append, List.length_nil, Nat.cast_zero] at h
    rw [h]
    norm_num [BigEndian.toInt]
  simp [decodeRow, hsize]

/-- A `list<int>` column alone in its row, holding one item of `2 ^ 31` bytes, reads as null. -/
theorem decodeRow_encodeWithLength_overflow_intList :
    decodeRow ((Collection.mk .list [List.replicate (2 ^ 31) 0]).encodeWithLength 3) 3
      [.collection .list [.primitive .int] false] 0 =
      some ([Value.null (.collection .list [.primitive .int] false)], 4) := by
  have h := decodeRow_encodeWithLength_overflow (.collection .list [.primitive .int] false) []
  rwa [List.append_nil] at h

end CassandraDriver
