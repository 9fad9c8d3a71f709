import Mathlib
import CassandraDriver.TokenMap.TokenMapImpl

/-!
# Token-aware lookup

`get_replicas` finds the replicas of a routing key with `std::upper_bound` over the keyspace's
replica vector. On a vector sorted by token the binary search finds the first entry whose token
is greater than the key's token (`UpperBound.upperBound_eq_findIdx`), so a key goes to the first
ring token strictly after its own, wrapping around to the first entry.

Cassandra gives the token `t` the range `(previous token, t]` (`ownerReplicas` below). The two
rules agree on every key whose token is not a ring token, and differ on a key whose token is
one: the driver sends it to the next token's replicas.

Every vector that `build` leaves is sorted, whatever calls came before: `build` sorts the ring,
every strategy keeps the ring's order, and every keyspace with a vector has a strategy, so that
`build` rebuilds them all.
-/

namespace CassandraDriver

namespace KeyspaceMap

variable {β : Type}

lemma lookup_filter_ne (m : KeyspaceMap β) {key key' : String} (hne : key' ≠ key) :
    (m.filter (·.1 != key)).lookup key' = m.lookup key' := by
  induction m with
  | nil => rfl
  | cons e m ih =>
    obtain ⟨k, v⟩ := e
    by_cases hk : k = key
    · subst hk
      have hne' : (key' == k) = false := by simp [hne]
      simp [List.lookup, hne', ih]
    · simp [List.lookup, hk, ih]

lemma lookup_insert (m : KeyspaceMap β) (key key' : String) (value : β) :
    (m.insert key value).lookup key' = if key' = key then some value else m.lookup key' := by
  split_ifs with h
  · subst h
    exact lookup_insert_self m key' value
  · have hne : (key' == key) = false := by simp [h]
    rw [insert, List.lookup, hne, lookup_filter_ne m h]

lemma lookup_erase (m : KeyspaceMap β) (key key' : String) :
    (m.erase key).lookup key' = if key' = key then none else m.lookup key' := by
  split_ifs with h
  · subst h
    simp only [erase, List.lookup_eq_none_iff, List.mem_filter, bne_iff_ne, ne_eq, and_imp]
    intro p _ hne heq
    exact absurd heq.symm hne
  · exact lookup_filter_ne m h

/-- What a fold of inserts holds: an inserted value, or an old value no insert overwrote. -/
lemma lookup_foldl_insert {γ : Type} (f : γ → String) (g : γ → β) (l : List γ)
    (m : KeyspaceMap β) {key : String} {value : β}
    (h : (l.foldl (fun m e => m.insert (f e) (g e)) m).lookup key = some value) :
    (∃ e ∈ l, f e = key ∧ g e = value) ∨ (m.lookup key = some value ∧ ∀ e ∈ l, f e ≠ key) := by
  induction l generalizing m with
  | nil => exact .inr ⟨h, by simp⟩
  | cons e l ih =>
    rcases ih _ h with ⟨e', he', hkey, hval⟩ | ⟨hm, hnot⟩
    · exact .inl ⟨e', List.mem_cons_of_mem e he', hkey, hval⟩
    · rw [lookup_insert] at hm
      split_ifs at hm with hkey
      · exact .inl ⟨e, List.mem_cons_self, hkey.symm, Option.some.inj hm⟩
      · refine .inr ⟨hm, ?_⟩
        intro e' he'
        rcases List.mem_cons.mp he' with rfl | he'
        · exact Ne.symm hkey
        · exact hnot e' he'

end KeyspaceMap

namespace TokenMapImpl

variable {τ α : Type}

/-! ### Keyspaces with a vector have a strategy -/

section Covered

variable [DecidableEq α]

/-- Every keyspace with a replica vector has a strategy, so `build_replicas` rebuilds every
vector there is. -/
def Covered (m : TokenMapImpl τ α) : Prop :=
  ∀ ks, (m.replicas.lookup ks).isSome → (m.strategies.lookup ks).isSome

lemma isSome_lookup_of_mem {β : Type} {l : KeyspaceMap β} {e : String × β} (he : e ∈ l) :
    (l.lookup e.1).isSome := by
  cases h : l.lookup e.1 with
  | some _ => rfl
  | none =>
    have hne := List.lookup_eq_none_iff.mp h e he
    simp at hne

lemma mem_of_lookup_eq_some {β : Type} {l : KeyspaceMap β} {key : String} {value : β}
    (h : l.lookup key = some value) : (key, value) ∈ l := by
  obtain ⟨l₁, l₂, rfl, -⟩ := List.lookup_eq_some_iff.mp h
  simp

lemma Covered.buildReplicas {m : TokenMapImpl τ α} (h : Covered m) : Covered m.buildReplicas := by
  intro ks hks
  obtain ⟨v, hv⟩ := Option.isSome_iff_exists.mp hks
  rcases KeyspaceMap.lookup_foldl_insert _ _ _ _ hv with ⟨e, he, rfl, -⟩ | ⟨hold, -⟩
  · exact isSome_lookup_of_mem he
  · exact h ks (by simp [hold])

lemma Covered.updateKeyspaceRow {m : TokenMapImpl τ α} (h : Covered m) (b : Bool)
    (row : KeyspaceRow) : Covered (updateKeyspaceRow b m row) := by
  intro ks hks
  rcases updateKeyspaceRow_cases b m row with ⟨hs, hr⟩ | ⟨ks', s, -, hs, hr⟩
  · rw [hr] at hks
    rw [hs]
    exact h ks hks
  · rw [hs, KeyspaceMap.lookup_insert]
    split_ifs with hk
    · rfl
    · rcases hr with hr | hr <;> rw [hr] at hks
      · exact h ks hks
      · rw [KeyspaceMap.lookup_insert, if_neg hk] at hks
        exact h ks hks

lemma Covered.updateKeyspace {m : TokenMapImpl τ α} (h : Covered m) (rows : List KeyspaceRow)
    (b : Bool) : Covered (m.updateKeyspace rows b) := by
  induction rows generalizing m with
  | nil => exact h
  | cons row rows ih => exact ih (h.updateKeyspaceRow b row)

end Covered

variable [LinearOrder τ]

/-! ### `std::upper_bound` on a sorted vector -/

section Sorted

variable {β : Type}

lemma partitioned_of_sorted {l : List (τ × β)} (hs : l.Pairwise fun a b => a.1 ≤ b.1)
    (token : τ) : UpperBound.Partitioned (fun r => decide (token < r.1)) l :=
  UpperBound.partitioned_of_pairwise hs token

/-- On a sorted vector `std::upper_bound` finds its first entry above the token. -/
lemma getElem?_upperBound {l : List (τ × β)} (hs : l.Pairwise fun a b => a.1 ≤ b.1)
    (token : τ) :
    l[UpperBound.upperBound (fun r => decide (token < r.1)) l]? = l.find? fun r => token < r.1 := by
  rw [UpperBound.upperBound_eq_findIdx (partitioned_of_sorted hs token),
    List.find?_eq_getElem?_findIdx]

/-- On a strictly sorted vector, the first entry above a token of the vector is the next one. -/
lemma find?_lt_of_getElem {l : List (τ × β)} (hs : l.Pairwise fun a b => a.1 < b.1) {i : Nat}
    (hi : i < l.length) : (l.find? fun r => l[i].1 < r.1) = l[i + 1]? := by
  have hle : ∀ j (hj : j < l.length), j ≤ i → l[j].1 ≤ l[i].1 := by
    intro j hj hji
    rcases Nat.lt_or_eq_of_le hji with hji | rfl
    · exact le_of_lt (List.pairwise_iff_getElem.mp hs j i hj hi hji)
    · exact le_refl _
  rw [List.find?_eq_getElem?_findIdx]
  by_cases hnext : i + 1 < l.length
  · have hidx : (l.findIdx fun r => l[i].1 < r.1) = i + 1 := by
      refine (List.findIdx_eq hnext).mpr ⟨?_, fun j hj => ?_⟩
      · simpa using List.pairwise_iff_getElem.mp hs i (i + 1) hi hnext (Nat.lt_succ_self i)
      · simpa using hle j (by omega) (by omega)
    rw [hidx]
  · have hidx : (l.findIdx fun r => l[i].1 < r.1) = l.length := by
      refine List.findIdx_eq_length.mpr fun x hx => ?_
      obtain ⟨j, hj, rfl⟩ := List.getElem_of_mem hx
      simpa using hle j hj (by omega)
    rw [hidx, List.getElem?_eq_none (le_refl _), List.getElem?_eq_none (by omega)]

end Sorted

/-- Cassandra's ownership rule: the token `t` owns the range `(previous token, t]`, and the
first token also owns what lies past the last one. -/
def ownerReplicas (replicas : List (τ × List α)) (token : τ) : Option (List α) :=
  ((replicas.find? fun r => token ≤ r.1).map (·.2)).or (replicas.head?.map (·.2))

variable {m : TokenMapImpl τ α} {hash : List UInt8 → τ} {ks : String} {key : List UInt8}
  {replicas : List (τ × List α)}

/-- `get_replicas` on a sorted vector: the replicas of the first entry above the key's token,
or of the first entry. -/
theorem getReplicas_eq_find (hks : m.replicas.lookup ks = some replicas)
    (hs : replicas.Pairwise fun a b => a.1 ≤ b.1) :
    m.getReplicas hash ks key =
      ((replicas.find? fun r => hash key < r.1).map (·.2)).or (replicas.head?.map (·.2)) := by
  simp only [getReplicas, hks, getElem?_upperBound hs]
  cases replicas.find? fun r => hash key < r.1 <;> rfl

/-- Off the ring tokens the driver follows the ownership rule. -/
theorem getReplicas_eq_ownerReplicas (hks : m.replicas.lookup ks = some replicas)
    (hs : replicas.Pairwise fun a b => a.1 ≤ b.1) (hkey : hash key ∉ replicas.map Prod.fst) :
    m.getReplicas hash ks key = ownerReplicas replicas (hash key) := by
  have hfind : (replicas.find? fun r => hash key < r.1) =
      replicas.find? fun r => hash key ≤ r.1 := by
    refine List.find?_congr fun r hr => ?_
    have hne : hash key ≠ r.1 := fun h => hkey (List.mem_map.mpr ⟨r, hr, h.symm⟩)
    simp [lt_iff_le_and_ne, hne]
  rw [getReplicas_eq_find hks hs, hfind, ownerReplicas]

/-- On a ring token the rules part: the ownership rule gives that token's replicas, and the
driver those of the next token, or of the first after the last. -/
theorem getReplicas_of_token_eq (hks : m.replicas.lookup ks = some replicas)
    (hs : replicas.Pairwise fun a b => a.1 < b.1) {i : Nat} (hi : i < replicas.length)
    (htoken : replicas[i].1 = hash key) :
    ownerReplicas replicas (hash key) = some replicas[i].2 ∧
      m.getReplicas hash ks key = (replicas[i + 1]?.or replicas.head?).map (·.2) := by
  have hle : replicas.Pairwise fun a b => a.1 ≤ b.1 := hs.imp le_of_lt
  constructor
  · have hidx : (replicas.findIdx fun r => hash key ≤ r.1) = i := by
      refine (List.findIdx_eq hi).mpr ⟨by simp [htoken], fun j hj => ?_⟩
      have hlt := List.pairwise_iff_getElem.mp hs j i (by omega) hi hj
      simpa [← htoken] using hlt
    rw [ownerReplicas, List.find?_eq_getElem?_findIdx, hidx, List.getElem?_eq_getElem hi]
    rfl
  · rw [getReplicas_eq_find hks hle, ← htoken, find?_lt_of_getElem hs hi]
    cases replicas[i + 1]? <;> rfl

/-! ### Every vector `build` leaves is sorted -/

lemma pairwise_sortTokens (l : List (τ × α)) : (sortTokens l).Pairwise fun a b => a.1 ≤ b.1 := by
  have : Std.Total (fun a b : τ × α => a.1 ≤ b.1) := ⟨fun a b => le_total a.1 b.1⟩
  have : IsTrans (τ × α) (fun a b => a.1 ≤ b.1) := ⟨fun _ _ _ => le_trans⟩
  exact List.pairwise_insertionSort _ l

section Build

variable [DecidableEq α]

/-- Every call keeps every vector backed by a strategy. -/
lemma Covered.step {m : TokenMapImpl τ α} (h : Covered m) (op : Op τ α) :
    Covered (m.step op) := by
  cases op with
  | addHost host tokens => exact h
  | updateHostAndBuild host tokens =>
    apply Covered.buildReplicas
    exact h
  | removeHostAndBuild address =>
    apply Covered.buildReplicas
    exact h
  | clearTokensAndHosts => exact h
  | addKeyspaces rows => exact h.updateKeyspace rows false
  | updateKeyspacesAndBuild rows => exact h.updateKeyspace rows true
  | dropKeyspace keyspaceName =>
    intro ks hks
    simp only [TokenMapImpl.step, dropKeyspace, KeyspaceMap.lookup_erase] at hks ⊢
    split_ifs at hks ⊢
    · exact hks
    · exact h ks hks
  | clearReplicasAndStrategies =>
    intro ks hks
    simp [TokenMapImpl.step, clearReplicasAndStrategies] at hks
  | build =>
    apply Covered.buildReplicas
    exact h

theorem covered_run (ops : List (Op τ α)) : Covered ((empty : TokenMapImpl τ α).run ops) := by
  suffices ∀ m : TokenMapImpl τ α, Covered m → Covered (m.run ops) from
    this empty (fun ks h => by simp [empty] at h)
  induction ops with
  | nil => exact fun m h => h
  | cons op ops ih => exact fun m h => ih _ (h.step op)

/-- Resolving addresses keeps the ring's order. -/
lemma pairwise_ring {m : TokenMapImpl τ α} (hs : m.tokens.Pairwise fun a b => a.1 ≤ b.1) :
    m.ring.Pairwise fun a b => a.1 ≤ b.1 := by
  refine hs.filterMap _ fun a a' haa' b hb b' hb' => ?_
  obtain ⟨_, -, rfl⟩ := Option.map_eq_some_iff.mp hb
  obtain ⟨_, -, rfl⟩ := Option.map_eq_some_iff.mp hb'
  exact haa'

/-- Every strategy's vector follows the ring's order. -/
lemma pairwise_replicaVector {m : TokenMapImpl τ α} (hs : m.ring.Pairwise fun a b => a.1 ≤ b.1)
    (s : ReplicationStrategy) : (m.replicaVector s).Pairwise fun a b => a.1 ≤ b.1 := by
  rw [replicaVector, List.pairwise_map]
  have hring : (m.ring.map Prod.fst).Pairwise (· ≤ ·) := List.pairwise_map.mpr hs
  rcases s.map_fst_buildReplicas m.ring (buildDatacenters m.hosts) with h | h
  · rw [← h, List.pairwise_map] at hring
    exact hring
  · rw [h]
    exact List.Pairwise.nil

/-- After `build`, every replica vector is sorted by token. -/
theorem pairwise_of_build {m : TokenMapImpl τ α} (hc : Covered m) {ks : String}
    {replicas : List (τ × List α)} (hks : m.build.replicas.lookup ks = some replicas) :
    replicas.Pairwise fun a b => a.1 ≤ b.1 := by
  rcases KeyspaceMap.lookup_foldl_insert _ _ _ _ hks with ⟨e, -, -, rfl⟩ | ⟨hold, hnot⟩
  · exact pairwise_replicaVector (pairwise_ring (pairwise_sortTokens m.tokens)) e.2
  · obtain ⟨s, hs⟩ := Option.isSome_iff_exists.mp (hc ks (by simp [hold]))
    exact absurd rfl (hnot _ (mem_of_lookup_eq_some hs))

/-- For every sequence of calls followed by `build`, `get_replicas` routes a key to the replicas
of the first ring token above the key's token, or of the first ring token. -/
theorem getReplicas_run_build (ops : List (Op τ α)) {hash : List UInt8 → τ} {ks : String}
    {key : List UInt8} {replicas : List (τ × List α)}
    (hks : ((empty.run ops).build).replicas.lookup ks = some replicas) :
    ((empty.run ops).build).getReplicas hash ks key =
      ((replicas.find? fun r => hash key < r.1).map (·.2)).or (replicas.head?.map (·.2)) :=
  getReplicas_eq_find hks (pairwise_of_build (covered_run ops) hks)

/-- A key whose token is a ring token goes to the next token's replicas. Hosts `1` and `2` own
the tokens `hash key` and `t < hash key` of a keyspace with one replica per token; the ownership
rule gives the key to host `1`, and `get_replicas` to host `2`. -/
theorem getReplicas_ringToken_next (hash : List UInt8 → τ) (key : List UInt8) (t : τ)
    (hlt : t < hash key) :
    let row : KeyspaceRow := ⟨some "ks", "SimpleStrategy", [("replication_factor", 1)]⟩
    let m := (empty : TokenMapImpl τ Nat).run
      [.addHost ⟨1, "", "", 0, 0⟩ [hash key], .addHost ⟨2, "", "", 0, 0⟩ [t],
        .addKeyspaces [row], .build]
    m.replicas.lookup "ks" = some [(t, [2]), (hash key, [1])] ∧
      ownerReplicas [(t, [2]), (hash key, [1])] (hash key) = some [1] ∧
      m.getReplicas hash "ks" key = some [2] := by
  intro row m
  have htype : ReplicationStrategy.typeOf "SimpleStrategy" = .simpleStrategy := by decide +kernel
  have hfactors : (ReplicationStrategy.initFactors [] .empty [("replication_factor", 1)]).1 =
      [(1, ⟨1, "replication_factor"⟩)] := by decide
  -- the ring is sorted to `[(t, 2), (hash key, 1)]` and each token gets its own host
  have hreplicas : m.replicas.lookup "ks" = some [(t, [2]), (hash key, [1])] := by
    simp [m, row, run, step, addHost, updateHostIds, IdGenerator.get, insertHost, empty,
      addKeyspaces, updateKeyspace, updateKeyspaceRow, ReplicationStrategy.init, htype, hfactors,
      KeyspaceMap.insert, build, sortTokens, List.insertionSort, List.orderedInsert,
      not_le.mpr hlt, buildReplicas, replicaVector, ring, ReplicationStrategy.buildReplicas,
      ReplicationStrategy.buildReplicasSimple, CyclicWalk.cyclicWalk]
  have hsorted : [(t, [2]), (hash key, [1])].Pairwise fun a b => a.1 < b.1 := by
    simpa using hlt
  obtain ⟨howner, hget⟩ := getReplicas_of_token_eq hreplicas hsorted (by decide : 1 < 2) rfl
  exact ⟨hreplicas, howner, hget⟩

theorem getReplicas_ringToken_next_int :
    (0 : Int) < 1 ∧
    let row : KeyspaceRow := ⟨some "ks", "SimpleStrategy", [("replication_factor", 1)]⟩
    let m := (empty : TokenMapImpl Int Nat).run
      [.addHost ⟨1, "", "", 0, 0⟩ [1], .addHost ⟨2, "", "", 0, 0⟩ [0], .addKeyspaces [row], .build]
    m.replicas.lookup "ks" = some [(0, [2]), (1, [1])] ∧
      ownerReplicas [(0, [2]), ((1 : Int), [1])] 1 = some [1] ∧
      m.getReplicas (fun _ => 1) "ks" [] = some [2] :=
  ⟨by decide, getReplicas_ringToken_next (fun _ => (1 : Int)) [] 0 (by decide)⟩

end Build

end TokenMapImpl

end CassandraDriver
