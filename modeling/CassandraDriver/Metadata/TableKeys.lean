import CassandraDriver.DataType.ClassNameParser
import Mathlib.Data.List.Sort

/-!
# The key columns of a table: `build_keys_and_sort`

After the columns of a table are read from the schema tables, `build_keys_and_sort` fills
`partition_key_`, `clustering_key_` and `clustering_key_order_` and puts `columns_` in the order
partition key, clustering key, other columns.

From Cassandra 2 on every key column carries its position. The columns are scattered into the key
vectors by position, and `columns_` is stable-sorted with `ColumnCompare`, which orders by kind
and then, among the key columns of one kind, by position. Where the positions of each kind are a
permutation of `0..k-1`, the key vectors hold the column of each position, and the sorted
columns are the partition key, the clustering key and the other columns in their first order
(`buildKeysAndSort_of_positions`).

Cassandra 1.2 lists only the regular columns; the key columns are made from the table's
`key_validator` and `comparator`, named by `key_aliases` and `column_aliases` where these are
long enough. A default name is written with `std::ostringstream ss("key"); ss << i + 1`. The
stream starts writing at the front of the text it was given, over it, so the second partition
key column is named `2ey`, not `key2` (`buildKeysV1_defaultNames`), and no default name past the
first is the prefix followed by its number (`keyColumnName_ne_append`).
-/

namespace CassandraDriver

/-- `CassColumnType` -/
inductive CassColumnType
  | regular
  | partitionKey
  | clusteringKey
  | static
  | compactValue
  deriving DecidableEq, Repr

/-- `CassClusteringOrder` -/
inductive CassClusteringOrder
  | none
  | asc
  | desc
  deriving DecidableEq, Repr

/-- A `ColumnMetadata`: its name, position, kind, whether it is reversed, and its type. -/
structure ColumnMetadata where
  name : String
  position : Int
  type : CassColumnType
  isReversed : Bool
  dataType : DataType

/-- The fields of a `TableMetadataBase` that `build_keys_and_sort` writes; a null
`ColumnMetadata::Ptr` is `none`. -/
structure TableMetadataBase where
  columns : List ColumnMetadata
  partitionKey : List (Option ColumnMetadata)
  clusteringKey : List (Option ColumnMetadata)
  clusteringKeyOrder : List CassClusteringOrder

/-- `std::vector::resize(n, value)` -/
def resize {α : Type} (v : List α) (n : Nat) (value : α) : List α :=
  v.take n ++ List.replicate (n - v.length) value

/-- `get_column_count` -/
def getColumnCount (columns : List ColumnMetadata) (type : CassColumnType) : Nat :=
  columns.countP (·.type = type)

/-! ### Cassandra 2 and later -/

namespace TableMetadataBase

/-- One round of the loop that puts the key columns at their positions; a position outside the
vector puts nothing. -/
def placeKeyColumn (t : TableMetadataBase) (column : ColumnMetadata) : TableMetadataBase :=
  if column.type = .partitionKey ∧ 0 ≤ column.position ∧
      column.position.toNat < t.partitionKey.length then
    { t with partitionKey := t.partitionKey.set column.position.toNat (some column) }
  else if column.type = .clusteringKey ∧ 0 ≤ column.position ∧
      column.position.toNat < t.clusteringKey.length then
    { t with
      clusteringKey := t.clusteringKey.set column.position.toNat (some column)
      clusteringKeyOrder := t.clusteringKeyOrder.set column.position.toNat
        (if column.isReversed then .desc else .asc) }
  else t

end TableMetadataBase

/-- `ColumnCompare` -/
def columnCompare (a b : ColumnMetadata) : Bool :=
  if a.type = b.type then
    (a.type = .partitionKey ∨ a.type = .clusteringKey) ∧ a.position < b.position
  else
    a.type = .partitionKey ∨ (a.type = .clusteringKey ∧ b.type ≠ .partitionKey)

/-- `std::stable_sort(first, last, comp)`: a stable sort that puts `b` before `a` only when
`comp(b, a)`. -/
def stableSort {α : Type} (comp : α → α → Bool) (l : List α) : List α :=
  l.mergeSort fun a b => !comp b a

namespace TableMetadataBase

/-- `build_keys_and_sort` for Cassandra 2 and later. -/
def buildKeysAndSortV2 (t : TableMetadataBase) : TableMetadataBase :=
  let pkCount := getColumnCount t.columns .partitionKey
  let ckCount := getColumnCount t.columns .clusteringKey
  let t := { t with
    partitionKey := resize t.partitionKey pkCount none
    clusteringKey := resize t.clusteringKey ckCount none
    clusteringKeyOrder := resize t.clusteringKeyOrder ckCount .none }
  let t := t.columns.foldl placeKeyColumn t
  { t with columns := stableSort columnCompare t.columns }

end TableMetadataBase

/-! ### The key vectors, Cassandra 2 and later -/

namespace TableMetadataBase

/-- The last of the columns of kind `type` at position `j`: the one whose write is left in the key
vector. -/
def lastAt (columns : List ColumnMetadata) (type : CassColumnType) (j : Nat) :
    Option ColumnMetadata :=
  (columns.filter fun c => c.type = type ∧ c.position = (j : Int)).getLast?

@[simp] lemma length_partitionKey_placeKeyColumn (t : TableMetadataBase) (c : ColumnMetadata) :
    (t.placeKeyColumn c).partitionKey.length = t.partitionKey.length := by
  unfold placeKeyColumn
  split_ifs <;> simp

@[simp] lemma length_clusteringKey_placeKeyColumn (t : TableMetadataBase) (c : ColumnMetadata) :
    (t.placeKeyColumn c).clusteringKey.length = t.clusteringKey.length := by
  unfold placeKeyColumn
  split_ifs <;> simp

lemma partitionKey_placeKeyColumn (t : TableMetadataBase) (c : ColumnMetadata) :
    (t.placeKeyColumn c).partitionKey =
      if c.type = .partitionKey ∧ 0 ≤ c.position ∧ c.position.toNat < t.partitionKey.length then
        t.partitionKey.set c.position.toNat (some c)
      else t.partitionKey := by
  unfold placeKeyColumn
  split_ifs <;> rfl

/-- A partition key column is never written to the clustering vectors. -/
lemma clusteringKey_placeKeyColumn (t : TableMetadataBase) (c : ColumnMetadata) :
    (t.placeKeyColumn c).clusteringKey =
        (if c.type = .clusteringKey ∧ 0 ≤ c.position ∧ c.position.toNat < t.clusteringKey.length then
          t.clusteringKey.set c.position.toNat (some c)
        else t.clusteringKey) ∧
      (t.placeKeyColumn c).clusteringKeyOrder =
        if c.type = .clusteringKey ∧ 0 ≤ c.position ∧ c.position.toNat < t.clusteringKey.length then
          t.clusteringKeyOrder.set c.position.toNat (if c.isReversed then .desc else .asc)
        else t.clusteringKeyOrder := by
  unfold placeKeyColumn
  split_ifs with h1 h2 h3 <;> simp_all

section Place

variable {γ : Type} (g : TableMetadataBase → List γ) (len : TableMetadataBase → Nat)
  (type : CassColumnType) (v : ColumnMetadata → γ)

/-- The loop over the columns, for one of the vectors `placeKeyColumn` writes, of length `len`:
each index holds the value of the last column of the kind at that position, or what it held
before. -/
lemma getElem?_foldl_placeKeyColumn
    (hstep : ∀ t c, g (placeKeyColumn t c) =
      if c.type = type ∧ 0 ≤ c.position ∧ c.position.toNat < len t then
        (g t).set c.position.toNat (v c)
      else g t)
    (hlen : ∀ t c, len (placeKeyColumn t c) = len t)
    (t : TableMetadataBase) (columns : List ColumnMetadata) (hg : (g t).length = len t) :
    len (columns.foldl placeKeyColumn t) = len t ∧
      (g (columns.foldl placeKeyColumn t)).length = len t ∧
      ∀ j < len t,
        (g (columns.foldl placeKeyColumn t))[j]? = ((lastAt columns type j).map v).or (g t)[j]? := by
  induction columns using List.reverseRecOn with
  | nil => simp [lastAt, hg]
  | append_singleton cs c ih =>
    obtain ⟨hlenFold, hgFold, hget⟩ := ih
    rw [List.foldl_append, List.foldl_cons, List.foldl_nil, hstep, hlen]
    refine ⟨hlenFold, ?_⟩
    split_ifs with hc
    · -- the column is written at its position
      refine ⟨by rw [List.length_set, hgFold], fun j hj => ?_⟩
      rw [List.getElem?_set, hgFold, lastAt, List.filter_append, List.getLast?_append]
      by_cases hpos : c.position.toNat = j
      · have hc' : c.type = type ∧ c.position = (j : Int) := ⟨hc.1, by omega⟩
        simp [hc', hj]
      · have hc' : ¬ (c.type = type ∧ c.position = (j : Int)) := fun h => hpos (by omega)
        simp [hpos, hc', hget j hj, lastAt]
    · refine ⟨hgFold, fun j hj => ?_⟩
      rw [lastAt, List.filter_append, List.getLast?_append]
      -- a column of the kind at `j` is inside the vector, so it was written
      have hc' : ¬ (c.type = type ∧ c.position = (j : Int)) := fun h =>
        hc ⟨h.1, by omega, by omega⟩
      simp [hc', hget j hj, lastAt]

end Place

end TableMetadataBase

/-! ### `ColumnCompare` and the sorted columns -/

/-- The rank `ColumnCompare` gives a kind of column: partition key, clustering key, any other. -/
def kindRank : CassColumnType → Nat
  | .partitionKey => 0
  | .clusteringKey => 1
  | _ => 2

/-- The position `ColumnCompare` compares: a key column's own, none for the others. -/
def keyPosition (c : ColumnMetadata) : Int := if kindRank c.type < 2 then c.position else 0

lemma kindRank_le_two (type : CassColumnType) : kindRank type ≤ 2 := by
  cases type <;> decide

/-- `ColumnCompare` orders by kind, then a key column by its position. -/
lemma columnCompare_iff (a b : ColumnMetadata) :
    columnCompare a b = true ↔ kindRank a.type < kindRank b.type ∨
      (kindRank a.type = kindRank b.type ∧ keyPosition a < keyPosition b) := by
  unfold columnCompare keyPosition
  cases a.type <;> cases b.type <;> simp [kindRank]

/-- The order `stable_sort` keeps: `a` may stay before `b` unless `ColumnCompare(b, a)`. -/
lemma sortLe_iff (a b : ColumnMetadata) :
    (!columnCompare b a) = true ↔ kindRank a.type < kindRank b.type ∨
      (kindRank a.type = kindRank b.type ∧ keyPosition a ≤ keyPosition b) := by
  rw [Bool.not_eq_true', ← Bool.not_eq_true, columnCompare_iff]
  omega

lemma sortLe_trans (a b c : ColumnMetadata) (hab : (!columnCompare b a) = true)
    (hbc : (!columnCompare c b) = true) : (!columnCompare c a) = true := by
  rw [sortLe_iff] at *
  omega

lemma sortLe_total (a b : ColumnMetadata) :
    ((!columnCompare b a) || (!columnCompare a b)) = true := by
  rw [Bool.or_eq_true, sortLe_iff, sortLe_iff]
  omega

/-- A list ordered by kind is its partition key columns, then its clustering columns, then the
others. -/
lemma eq_kindBlocks {l : List ColumnMetadata}
    (h : l.Pairwise fun a b => kindRank a.type ≤ kindRank b.type) :
    l = l.filter (kindRank ·.type = 0) ++ l.filter (kindRank ·.type = 1) ++
      l.filter (kindRank ·.type = 2) := by
  induction l with
  | nil => rfl
  | cons a l ih =>
    obtain ⟨hle, hl⟩ := List.pairwise_cons.mp h
    have hrest := ih hl
    have hrank := kindRank_le_two a.type
    -- a column of a later kind has only columns of that kind or later after it
    have hnil : ∀ r < kindRank a.type, l.filter (kindRank ·.type = r) = [] := fun r hr =>
      List.filter_eq_nil_iff.mpr fun b hb => by have := hle b hb; simp; omega
    rcases (show kindRank a.type = 0 ∨ kindRank a.type = 1 ∨ kindRank a.type = 2 by omega)
      with h0 | h1 | h2
    · simp only [List.filter_cons, h0, decide_true, if_true, decide_false,
        Bool.false_eq_true, if_false, show (0 : Nat) ≠ 1 from by decide,
        show (0 : Nat) ≠ 2 from by decide]
      simpa using hrest
    · simp only [List.filter_cons, h1, decide_true, if_true, Bool.false_eq_true, if_false,
        show (1 : Nat) ≠ 0 from by decide, show (1 : Nat) ≠ 2 from by decide, decide_false,
        hnil 0 (by omega)] at hrest ⊢
      simpa using hrest
    · simp only [List.filter_cons, h2, decide_true, if_true, Bool.false_eq_true, if_false,
        show (2 : Nat) ≠ 0 from by decide, show (2 : Nat) ≠ 1 from by decide, decide_false,
        hnil 0 (by omega), hnil 1 (by omega)] at hrest ⊢
      simpa using hrest

lemma kindRank_eq_iff {type : CassColumnType} (hkey : type = .partitionKey ∨ type = .clusteringKey)
    (c : ColumnMetadata) : kindRank c.type = kindRank type ↔ c.type = type := by
  rcases hkey with rfl | rfl <;> cases c.type <;> simp [kindRank]

/-! ### `build_keys_and_sort` on positions that are permutations -/

/-- The positions of the columns of kind `type` are `0`, …, `k - 1`, each once, where `k` is the
number of such columns. -/
def PositionsArePermutation (columns : List ColumnMetadata) (type : CassColumnType) : Prop :=
  ((columns.filter (·.type = type)).map (·.position)).Perm
    ((List.range (getColumnCount columns type)).map Int.ofNat)

instance (columns : List ColumnMetadata) (type : CassColumnType) :
    Decidable (PositionsArePermutation columns type) :=
  inferInstanceAs (Decidable (List.Perm _ _))

namespace TableMetadataBase

section Positions

variable {columns : List ColumnMetadata} {type : CassColumnType}

lemma lastAt_mem {j : Nat} {c : ColumnMetadata} (h : lastAt columns type j = some c) :
    c ∈ columns.filter (·.type = type) ∧ c.position = j := by
  have hmem := List.mem_filter.mp (List.mem_of_getLast? h)
  simp only [decide_eq_true_eq] at hmem
  exact ⟨List.mem_filter.mpr ⟨hmem.1, by simp [hmem.2.1]⟩, hmem.2.2⟩

/-- The columns of a kind have distinct positions, so a position names one column. -/
lemma eq_of_position_eq (hperm : PositionsArePermutation columns type) {a b : ColumnMetadata}
    (ha : a ∈ columns.filter (·.type = type)) (hb : b ∈ columns.filter (·.type = type))
    (hpos : a.position = b.position) : a = b := by
  have hnodup : ((columns.filter (·.type = type)).map (·.position)).Nodup :=
    hperm.nodup_iff.mpr (List.nodup_range.map Nat.cast_injective)
  exact List.inj_on_of_nodup_map hnodup ha hb hpos

/-- Every position below the count has a column. -/
lemma exists_lastAt (hperm : PositionsArePermutation columns type) {j : Nat}
    (hj : j < getColumnCount columns type) :
    ∃ c, lastAt columns type j = some c := by
  have hmem : (j : Int) ∈ (columns.filter (·.type = type)).map (·.position) :=
    hperm.mem_iff.mpr (List.mem_map.mpr ⟨j, List.mem_range.mpr hj, rfl⟩)
  obtain ⟨c, hc, hpos⟩ := List.mem_map.mp hmem
  have hc' := List.mem_filter.mp hc
  cases hlast : lastAt columns type j with
  | some c' => exact ⟨c', rfl⟩
  | none =>
    rw [lastAt, List.getLast?_eq_none_iff, List.filter_eq_nil_iff] at hlast
    exact absurd (by simpa [hpos] using hc'.2) (hlast c hc'.1)

/-- The columns of a kind, taken position after position. -/
lemma filterMap_lastAt_perm (hperm : PositionsArePermutation columns type) :
    ((List.range (getColumnCount columns type)).filterMap (lastAt columns type)).Perm
      (columns.filter (·.type = type)) := by
  have hpair : ((List.range (getColumnCount columns type)).filterMap
      (lastAt columns type)).Pairwise fun a b => a.position < b.position := by
    rw [List.pairwise_filterMap]
    refine List.pairwise_lt_range.imp fun {i j} hij a ha b hb => ?_
    rw [(lastAt_mem ha).2, (lastAt_mem hb).2]
    exact_mod_cast hij
  have hnodup : (columns.filter (·.type = type)).Nodup :=
    List.Nodup.of_map (·.position)
      (hperm.nodup_iff.mpr (List.nodup_range.map Nat.cast_injective))
  have hpairNodup : ((List.range (getColumnCount columns type)).filterMap
      (lastAt columns type)).Nodup :=
    hpair.imp fun h heq => by subst heq; exact lt_irrefl _ h
  rw [List.perm_ext_iff_of_nodup hpairNodup hnodup]
  intro c
  constructor
  · intro hc
    obtain ⟨j, -, hj⟩ := List.mem_filterMap.mp hc
    exact (lastAt_mem hj).1
  · intro hc
    -- the position of `c` is some `j` below the count, and the column there is `c`
    have hmem : c.position ∈ (List.range (getColumnCount columns type)).map Int.ofNat :=
      hperm.mem_iff.mp (List.mem_map_of_mem hc)
    obtain ⟨j, hj, hjpos⟩ := List.mem_map.mp hmem
    obtain ⟨c', hc'⟩ := exists_lastAt hperm (List.mem_range.mp hj)
    have hsame := eq_of_position_eq hperm (lastAt_mem hc').1 hc
      (by rw [(lastAt_mem hc').2, ← hjpos]; rfl)
    exact List.mem_filterMap.mpr ⟨j, hj, hsame ▸ hc'⟩

end Positions

end TableMetadataBase

/-! ### The sorted columns -/

section Sorted

variable {columns : List ColumnMetadata}

lemma pairwise_stableSort (columns : List ColumnMetadata) :
    (stableSort columnCompare columns).Pairwise fun a b => (!columnCompare b a) = true :=
  List.pairwise_mergeSort sortLe_trans sortLe_total columns

/-- The key columns of one kind come out of the sort by position. -/
lemma filter_stableSort_key {type : CassColumnType}
    (hkey : type = .partitionKey ∨ type = .clusteringKey)
    (hperm : PositionsArePermutation columns type) :
    (stableSort columnCompare columns).filter (kindRank ·.type = kindRank type) =
      (List.range (getColumnCount columns type)).filterMap (TableMetadataBase.lastAt columns type) := by
  have hkind : ∀ c : ColumnMetadata, decide (kindRank c.type = kindRank type) = decide (c.type = type) :=
    fun c => decide_eq_decide.mpr (kindRank_eq_iff hkey c)
  have hblock : ((stableSort columnCompare columns).filter (kindRank ·.type = kindRank type)).Perm
      (columns.filter (·.type = type)) := by
    rw [List.filter_congr fun c _ => hkind c]
    exact (List.mergeSort_perm _ _).filter _
  -- both lists are ordered by position, and a position names one column
  apply @List.Perm.eq_of_pairwise _ fun a b : ColumnMetadata => a.position ≤ b.position
  · intro a b ha hb hab hba
    exact TableMetadataBase.eq_of_position_eq hperm (hblock.mem_iff.mp ha)
      ((TableMetadataBase.filterMap_lastAt_perm hperm).mem_iff.mp hb) (le_antisymm hab hba)
  · refine ((pairwise_stableSort columns).filter _).imp_of_mem fun {a b} ha hb hab => ?_
    have ha' := (List.mem_filter.mp ha).2
    have hb' := (List.mem_filter.mp hb).2
    have hrank : kindRank type < 2 := by rcases hkey with rfl | rfl <;> decide
    simp only [decide_eq_true_eq] at ha' hb'
    rw [sortLe_iff, keyPosition, keyPosition, ha', hb', if_pos hrank, if_pos hrank] at hab
    omega
  · rw [List.pairwise_filterMap]
    refine List.pairwise_lt_range.imp fun {i j} hij a ha b hb => ?_
    rw [(TableMetadataBase.lastAt_mem ha).2, (TableMetadataBase.lastAt_mem hb).2]
    exact_mod_cast hij.le
  · exact hblock.trans (TableMetadataBase.filterMap_lastAt_perm hperm).symm

/-- The other columns come out of the sort in their first order. -/
lemma filter_stableSort_other (columns : List ColumnMetadata) :
    (stableSort columnCompare columns).filter (kindRank ·.type = 2) =
      columns.filter (kindRank ·.type = 2) := by
  have hsub : (columns.filter (kindRank ·.type = 2)).Sublist (stableSort columnCompare columns) := by
    refine List.sublist_mergeSort sortLe_trans sortLe_total ?_ List.filter_sublist
    refine List.Pairwise.imp_of_mem (fun {a b} ha hb _ => ?_) (R := fun _ _ => True)
      (List.pairwise_of_forall fun _ _ => trivial)
    have ha' := (List.mem_filter.mp ha).2
    have hb' := (List.mem_filter.mp hb).2
    simp only [decide_eq_true_eq] at ha' hb'
    rw [sortLe_iff, keyPosition, keyPosition, ha', hb']
    simp
  have hsub' := hsub.filter (kindRank ·.type = 2)
  rw [List.filter_filter] at hsub'
  simp only [Bool.and_self] at hsub'
  refine (hsub'.eq_of_length ?_).symm
  exact (((List.mergeSort_perm _ _).filter _).length_eq).symm

/-- The sort puts the partition key columns by position, then the clustering columns by
position, then the other columns in their first order. -/
theorem stableSort_columnCompare (hpk : PositionsArePermutation columns .partitionKey)
    (hck : PositionsArePermutation columns .clusteringKey) :
    stableSort columnCompare columns =
      (List.range (getColumnCount columns .partitionKey)).filterMap
          (TableMetadataBase.lastAt columns .partitionKey) ++
        (List.range (getColumnCount columns .clusteringKey)).filterMap
          (TableMetadataBase.lastAt columns .clusteringKey) ++
        columns.filter fun c => c.type ≠ .partitionKey ∧ c.type ≠ .clusteringKey := by
  have hrank : (stableSort columnCompare columns).Pairwise
      fun a b => kindRank a.type ≤ kindRank b.type :=
    (pairwise_stableSort columns).imp fun {a b} h => by rw [sortLe_iff] at h; omega
  have hother : columns.filter (kindRank ·.type = 2) =
      columns.filter fun c => c.type ≠ .partitionKey ∧ c.type ≠ .clusteringKey :=
    List.filter_congr fun c _ => by cases c.type <;> rfl
  have hpkBlock : (stableSort columnCompare columns).filter (kindRank ·.type = 0) = _ :=
    filter_stableSort_key (.inl rfl) hpk
  have hckBlock : (stableSort columnCompare columns).filter (kindRank ·.type = 1) = _ :=
    filter_stableSort_key (.inr rfl) hck
  rw [eq_kindBlocks hrank, hpkBlock, hckBlock, filter_stableSort_other, hother]

end Sorted

/-! ### `build_keys_and_sort` from Cassandra 2 on -/

namespace TableMetadataBase

@[simp] lemma columns_placeKeyColumn (t : TableMetadataBase) (c : ColumnMetadata) :
    (t.placeKeyColumn c).columns = t.columns := by
  unfold placeKeyColumn
  split_ifs <;> rfl

lemma columns_foldl_placeKeyColumn (t : TableMetadataBase) (cs : List ColumnMetadata) :
    (cs.foldl placeKeyColumn t).columns = t.columns := by
  induction cs generalizing t with
  | nil => rfl
  | cons c cs ih => rw [List.foldl_cons, ih, columns_placeKeyColumn]

@[simp] lemma resize_nil {α : Type} (n : Nat) (value : α) : resize [] n value = List.replicate n value := by
  simp [resize]

/-- The vectors `build_keys_and_sort` starts from, resized to the counts of key columns. -/
def resized (t : TableMetadataBase) : TableMetadataBase :=
  { t with
    partitionKey := resize t.partitionKey (getColumnCount t.columns .partitionKey) none
    clusteringKey := resize t.clusteringKey (getColumnCount t.columns .clusteringKey) none
    clusteringKeyOrder :=
      resize t.clusteringKeyOrder (getColumnCount t.columns .clusteringKey) .none }

lemma buildKeysAndSortV2_eq (t : TableMetadataBase) :
    t.buildKeysAndSortV2 =
      let t' := t.columns.foldl placeKeyColumn t.resized
      { t' with columns := stableSort columnCompare t.columns } := by
  simp only [buildKeysAndSortV2, resized, columns_foldl_placeKeyColumn]

/-- A key vector, read position by position: the value of the column there, the initial one
where there is none. -/
lemma key_vector_eq {γ : Type} {g : TableMetadataBase → List γ} {len : TableMetadataBase → Nat}
    {type : CassColumnType} {v : ColumnMetadata → γ}
    (hstep : ∀ t c, g (placeKeyColumn t c) =
      if c.type = type ∧ 0 ≤ c.position ∧ c.position.toNat < len t then
        (g t).set c.position.toNat (v c)
      else g t)
    (hlen : ∀ t c, len (placeKeyColumn t c) = len t)
    {t : TableMetadataBase} {n : Nat} {init : γ} (hg : g t = List.replicate n init)
    (hn : len t = n) (columns : List ColumnMetadata) :
    g (columns.foldl placeKeyColumn t) =
      (List.range n).map fun j => ((lastAt columns type j).map v).getD init := by
  have hgLen : (g t).length = len t := by rw [hg, hn, List.length_replicate]
  obtain ⟨-, hfoldLen, hget⟩ := getElem?_foldl_placeKeyColumn g len type v hstep hlen t columns hgLen
  apply List.ext_getElem?
  intro j
  by_cases hj : j < n
  · rw [hget j (hn ▸ hj), hg, List.getElem?_replicate, if_pos hj, List.getElem?_map,
      List.getElem?_range hj, Option.map_some]
    cases lastAt columns type j <;> rfl
  · rw [List.getElem?_eq_none (by omega), List.getElem?_eq_none (by simp; omega)]

end TableMetadataBase

namespace TableMetadataBase

lemma getD_map_some {α : Type} (x : Option α) : (x.map some).getD none = x := by
  cases x <;> rfl

section V2

variable {t : TableMetadataBase}

lemma partitionKey_buildKeysAndSortV2 (h : t.partitionKey = []) :
    t.buildKeysAndSortV2.partitionKey =
      (List.range (getColumnCount t.columns .partitionKey)).map (lastAt t.columns .partitionKey) := by
  have hg : t.resized.partitionKey = List.replicate (getColumnCount t.columns .partitionKey) none := by
    simp [resized, h]
  have hvec := @key_vector_eq _ partitionKey (fun t => t.partitionKey.length) _ _
    partitionKey_placeKeyColumn length_partitionKey_placeKeyColumn _ _ _ hg (by simp [hg])
    t.columns
  rw [buildKeysAndSortV2_eq]
  dsimp only
  simp only [hvec, getD_map_some]

lemma clusteringKey_buildKeysAndSortV2 (h : t.clusteringKey = [] ∧ t.clusteringKeyOrder = []) :
    t.buildKeysAndSortV2.clusteringKey =
        (List.range (getColumnCount t.columns .clusteringKey)).map
          (lastAt t.columns .clusteringKey) ∧
      t.buildKeysAndSortV2.clusteringKeyOrder =
        (List.range (getColumnCount t.columns .clusteringKey)).map fun j =>
          ((lastAt t.columns .clusteringKey j).map fun c =>
            if c.isReversed then CassClusteringOrder.desc else .asc).getD .none := by
  have hg : t.resized.clusteringKey =
      List.replicate (getColumnCount t.columns .clusteringKey) none := by
    simp [resized, h.1]
  have hgOrder : t.resized.clusteringKeyOrder =
      List.replicate (getColumnCount t.columns .clusteringKey) .none := by
    simp [resized, h.2]
  have hkey := @key_vector_eq _ clusteringKey (fun t => t.clusteringKey.length) _ _
    (fun t c => (clusteringKey_placeKeyColumn t c).1) length_clusteringKey_placeKeyColumn
    _ _ _ hg (by simp [hg]) t.columns
  have horder := @key_vector_eq _ clusteringKeyOrder (fun t => t.clusteringKey.length) _ _
    (fun t c => (clusteringKey_placeKeyColumn t c).2) length_clusteringKey_placeKeyColumn
    _ _ _ hgOrder (by simp [hg]) t.columns
  rw [buildKeysAndSortV2_eq]
  dsimp only
  simp only [hkey, horder, getD_map_some, and_self]

/-- From Cassandra 2 on, where the positions of the partition key columns and of the clustering
columns are each a permutation of `0..k-1` and the key vectors start empty, `partition_key_[i]`
and `clustering_key_[i]` are the columns at position `i`, the clustering order is `DESC` exactly
for a reversed column, and the sorted columns are the partition key, the clustering key and the
other columns in their first order. -/
theorem buildKeysAndSort_of_positions
    (hempty : t.partitionKey = [] ∧ t.clusteringKey = [] ∧ t.clusteringKeyOrder = [])
    (hpk : PositionsArePermutation t.columns .partitionKey)
    (hck : PositionsArePermutation t.columns .clusteringKey) :
    t.buildKeysAndSortV2.partitionKey.length = getColumnCount t.columns .partitionKey ∧
      (∀ j < getColumnCount t.columns .partitionKey, ∃ c ∈ t.columns,
        c.type = .partitionKey ∧ c.position = j ∧
          t.buildKeysAndSortV2.partitionKey[j]? = some (some c)) ∧
      t.buildKeysAndSortV2.clusteringKey.length = getColumnCount t.columns .clusteringKey ∧
      (∀ j < getColumnCount t.columns .clusteringKey, ∃ c ∈ t.columns,
        c.type = .clusteringKey ∧ c.position = j ∧
          t.buildKeysAndSortV2.clusteringKey[j]? = some (some c) ∧
          t.buildKeysAndSortV2.clusteringKeyOrder[j]? =
            some (if c.isReversed then .desc else .asc)) ∧
      t.buildKeysAndSortV2.columns =
        t.buildKeysAndSortV2.partitionKey.filterMap id ++
          t.buildKeysAndSortV2.clusteringKey.filterMap id ++
          t.columns.filter fun c => c.type ≠ .partitionKey ∧ c.type ≠ .clusteringKey := by
  have hpkVec := partitionKey_buildKeysAndSortV2 hempty.1
  obtain ⟨hckVec, horder⟩ := clusteringKey_buildKeysAndSortV2 hempty.2
  have hcolumns : t.buildKeysAndSortV2.columns = stableSort columnCompare t.columns := by
    rw [buildKeysAndSortV2_eq]
  refine ⟨by simp [hpkVec], fun j hj => ?_, by simp [hckVec], fun j hj => ?_, ?_⟩
  · obtain ⟨c, hc⟩ := exists_lastAt hpk hj
    obtain ⟨hmem, hpos⟩ := lastAt_mem hc
    obtain ⟨hcol, htype⟩ := List.mem_filter.mp hmem
    refine ⟨c, hcol, by simpa using htype, hpos, ?_⟩
    rw [hpkVec, List.getElem?_map, List.getElem?_range hj, Option.map_some, hc]
  · obtain ⟨c, hc⟩ := exists_lastAt hck hj
    obtain ⟨hmem, hpos⟩ := lastAt_mem hc
    obtain ⟨hcol, htype⟩ := List.mem_filter.mp hmem
    refine ⟨c, hcol, by simpa using htype, hpos, ?_, ?_⟩
    · rw [hckVec, List.getElem?_map, List.getElem?_range hj, Option.map_some, hc]
    · rw [horder, List.getElem?_map, List.getElem?_range hj, Option.map_some, hc]
      rfl
  · rw [hcolumns, stableSort_columnCompare hpk hck, hpkVec, hckVec, List.filterMap_map,
      List.filterMap_map]
    rfl


/-- A table whose two partition key columns and reversed clustering column are listed out of
order, after a regular column. -/
def eventsTable : TableMetadataBase :=
  ⟨[⟨"v", -1, .regular, false, .primitive .text⟩,
    ⟨"ts", 0, .clusteringKey, true, .primitive .timestamp⟩,
    ⟨"day", 1, .partitionKey, false, .primitive .int⟩,
    ⟨"id", 0, .partitionKey, false, .primitive .uuid⟩], [], [], []⟩

/-- The key vectors of `eventsTable` are `id, day` and `ts DESC`. -/
theorem buildKeysAndSort_of_positions_eventsTable :
    eventsTable.buildKeysAndSortV2.partitionKey.map (Option.map ColumnMetadata.name) =
        [some "id", some "day"] ∧
      eventsTable.buildKeysAndSortV2.clusteringKeyOrder = [.desc] ∧
      eventsTable.buildKeysAndSortV2.partitionKey.length =
        getColumnCount eventsTable.columns .partitionKey ∧
      (∀ j < getColumnCount eventsTable.columns .partitionKey, ∃ c ∈ eventsTable.columns,
        c.type = .partitionKey ∧ c.position = j ∧
          eventsTable.buildKeysAndSortV2.partitionKey[j]? = some (some c)) ∧
      eventsTable.buildKeysAndSortV2.clusteringKey.length =
        getColumnCount eventsTable.columns .clusteringKey ∧
      (∀ j < getColumnCount eventsTable.columns .clusteringKey, ∃ c ∈ eventsTable.columns,
        c.type = .clusteringKey ∧ c.position = j ∧
          eventsTable.buildKeysAndSortV2.clusteringKey[j]? = some (some c) ∧
          eventsTable.buildKeysAndSortV2.clusteringKeyOrder[j]? =
            some (if c.isReversed then .desc else .asc)) ∧
      eventsTable.buildKeysAndSortV2.columns =
        eventsTable.buildKeysAndSortV2.partitionKey.filterMap id ++
          eventsTable.buildKeysAndSortV2.clusteringKey.filterMap id ++
          eventsTable.columns.filter fun c => c.type ≠ .partitionKey ∧ c.type ≠ .clusteringKey :=
  ⟨rfl, rfl, buildKeysAndSort_of_positions ⟨rfl, rfl, rfl⟩ (by decide) (by decide)⟩

end V2

end TableMetadataBase

/-! ### Cassandra 1.2 -/

/-- `std::ostringstream ss(init); ss << text; ss.str()`: the stream writes from the front of its
initial text, over it, and past its end where `text` is longer. -/
def ostringstreamWrite (init text : String) : String :=
  String.ofList (text.toList ++ init.toList.drop text.length)

/-- The name of the `i`-th key column made for Cassandra 1.2: its alias when there is one, else
`ss(prefix)` with `i + 1` written to it when `i > 0`. -/
def keyColumnName (aliases : List String) (pfx : String) (i : Nat) : String :=
  match aliases[i]? with
  | some keyAlias => keyAlias
  | none => if 0 < i then ostringstreamWrite pfx (toString (i + 1)) else pfx

lemma toList_ostringstreamWrite (init text : String) :
    (ostringstreamWrite init text).toList = text.toList ++ init.toList.drop text.length := by
  rw [ostringstreamWrite, String.toList_ofList]

/-- A default key name is never the prefix followed by the digits: the stream writes the digits
over the front of the prefix, so the name is only as long as the longer of the two. -/
theorem keyColumnName_ne_append {aliases : List String} {pfx : String} {i : Nat}
    (hpfx : pfx ≠ "") (hi : 0 < i) (halias : aliases.length ≤ i) :
    keyColumnName aliases pfx i ≠ pfx ++ toString (i + 1) := by
  have hnone : aliases[i]? = none := List.getElem?_eq_none halias
  have hdigits : 0 < (toString (i + 1)).length := by
    rw [Nat.toString_eq_ofList_toDigits, String.length_ofList]
    exact List.length_pos_of_ne_nil (Nat.toDigits_ne_nil)
  have hpfxLen : 0 < pfx.length := by
    rw [← String.length_toList]
    exact List.length_pos_of_ne_nil (mt String.toList_eq_nil_iff.mp hpfx)
  intro h
  have hlen := congrArg (fun s => s.toList.length) h
  simp only [keyColumnName, hnone, if_pos hi, toList_ostringstreamWrite, String.toList_append,
    List.length_append, List.length_drop, String.length_toList] at hlen
  omega

/-- What a Cassandra 1.2 table row gives `build_keys_and_sort`: the `key_aliases` and
`column_aliases` lists, empty where a field is missing, and the parsed `key_validator` and
`comparator`. -/
structure TableRowV1 where
  keyAliases : List String
  columnAliases : List String
  keyValidator : ParseResult
  comparator : ParseResult

/-- The number of clustering columns of a Cassandra 1.2 table; `none` where `size - 1` wraps
below zero, and the loop that follows reads past the comparator's types. -/
def clusteringKeySize (row : TableRowV1) (columns : List ColumnMetadata) : Option Nat :=
  let size := row.comparator.types.length
  if row.comparator.isComposite then
    if !row.comparator.collections.isEmpty ||
        (row.columnAliases.length + 1 = size ∧
          (row.comparator.types.getLast?.map DataType.valueType) = some .text) then
      if size = 0 then none else some (size - 1)
    else some size
  else some (if !row.columnAliases.isEmpty || columns.isEmpty then size else 0)

namespace TableMetadataBase

/-- `build_keys_and_sort` for Cassandra 1.2: the partition key from the key validator, the
clustering key from the comparator, both appended to the key vectors, then the columns put after
them. -/
def buildKeysV1 (t : TableMetadataBase) (row : TableRowV1) : Option TableMetadataBase := do
  let partitionKey := (List.range row.keyValidator.types.length).map fun i =>
    (⟨keyColumnName row.keyAliases "key" i, t.partitionKey.length + i, .partitionKey, false,
      row.keyValidator.types.getD i .nil⟩ : ColumnMetadata)
  let size ← clusteringKeySize row t.columns
  -- `comparator->types()[i]` and `comparator->reversed()[i]` for `i < size`
  if row.comparator.types.length < size ∨ row.comparator.reversed.length < size then none
  let clusteringKey := (List.range size).map fun i =>
    (⟨keyColumnName row.columnAliases "column" i, t.clusteringKey.length + i, .clusteringKey,
      false, row.comparator.types.getD i .nil⟩ : ColumnMetadata)
  let order := (List.range size).map fun i =>
    if row.comparator.reversed.getD i false then CassClusteringOrder.desc else .asc
  let partitionKey := t.partitionKey ++ partitionKey.map some
  let clusteringKey := t.clusteringKey ++ clusteringKey.map some
  some { columns := partitionKey.filterMap id ++ clusteringKey.filterMap id ++ t.columns
         partitionKey := partitionKey
         clusteringKey := clusteringKey
         clusteringKeyOrder := t.clusteringKeyOrder ++ order }

end TableMetadataBase

/-- A Cassandra 1.2 table with no aliases, a key validator of two `int` components and a
comparator of one `text` type: its columns are named `key`, `2ey` and `column`. -/
theorem buildKeysV1_defaultNames :
    ((TableMetadataBase.buildKeysV1 ⟨[], [], [], []⟩
        ⟨[], [], ⟨true, [.primitive .int, .primitive .int], [false, false], []⟩,
          ⟨false, [.primitive .text], [false], []⟩⟩).map
      fun t => t.columns.map ColumnMetadata.name) = some ["key", "2ey", "column"] := by
  decide

end CassandraDriver
