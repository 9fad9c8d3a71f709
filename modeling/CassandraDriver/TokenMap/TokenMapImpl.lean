import CassandraDriver.TokenMap.Replication
import CassandraDriver.Data.UpperBound
import Mathlib.Data.List.Sort

/-!
# The token map: `TokenMapImpl`

The state the driver keeps for token-aware routing: the ring `tokens_` of `(token, host)` pairs,
the set of hosts, one replication strategy and one replica vector per keyspace, and the two
`IdGenerator`s that number rack and datacenter names. Its operations are those of
`token_map_impl.hpp`: hosts are added and then the ring is sorted by `build`, or a host is
replaced or removed and everything is rebuilt at once; keyspaces are added, updated or dropped;
`get_replicas` looks a routing key up with `std::upper_bound` over a keyspace's replica vector.

The session keeps one `Host` object per address and updates it in place, and the token map holds
pointers to it. The model therefore refers to hosts by address: the ring and the replica
vectors hold addresses, and the host set holds the current record of each address. Tokens are
of any linearly ordered type: `int64_t` for Murmur3, a pair of words for the random
partitioner, a byte string for the byte-ordered one.
-/

namespace CassandraDriver

variable {τ α : Type}

/-! ### Keyspace rows and `ReplicationStrategy::init` -/

/-- A row of the keyspaces table as `update_keyspace` reads it: the keyspace name (`none` when
the column cannot be read), the strategy class, and the other replication options with their
counts. -/
structure KeyspaceRow where
  keyspaceName : Option String
  strategyClass : String
  options : List (String × Nat)

namespace ReplicationStrategy

/-- `replication_factors_[key] = replication_factor`: the entry replaces any entry of the same
key. -/
def insertFactor (rfs : List (Nat × ReplicationFactor)) (key : Nat) (rf : ReplicationFactor) :
    List (Nat × ReplicationFactor) :=
  (key, rf) :: rfs.filter (·.1 != key)

/-- The loop over the replication options: an option with a positive count is recorded under
id `1` when it is `replication_factor`, and otherwise under the id of its datacenter name. -/
def initFactors (rfs : List (Nat × ReplicationFactor)) (dcIds : IdGenerator) :
    List (String × Nat) → List (Nat × ReplicationFactor) × IdGenerator
  | [] => (rfs, dcIds)
  | (key, count) :: options =>
    if 0 < count then
      if key = "replication_factor" then
        initFactors (insertFactor rfs 1 ⟨count, key⟩) dcIds options
      else
        let (id, dcIds) := dcIds.get key
        initFactors (insertFactor rfs id ⟨count, key⟩) dcIds options
    -- "Replication factor of 0 for option ..."
    else initFactors rfs dcIds options

lemma nodup_insertFactor {rfs : List (Nat × ReplicationFactor)} (h : (rfs.map Prod.fst).Nodup)
    (key : Nat) (rf : ReplicationFactor) : ((insertFactor rfs key rf).map Prod.fst).Nodup := by
  rw [insertFactor, List.map_cons, List.nodup_cons]
  constructor
  · simp
  · exact (h.sublist ((List.filter_sublist).map Prod.fst))

lemma count_pos_insertFactor {rfs : List (Nat × ReplicationFactor)}
    (h : ∀ p ∈ rfs, 0 < p.2.count) {key : Nat} {rf : ReplicationFactor} (hrf : 0 < rf.count) :
    ∀ p ∈ insertFactor rfs key rf, 0 < p.2.count := by
  intro p hp
  rcases List.mem_cons.mp hp with rfl | hp
  · exact hrf
  · exact h p (List.mem_of_mem_filter hp)

/-- The options loop keeps one entry per key and only positive counts. -/
lemma initFactors_wf {rfs : List (Nat × ReplicationFactor)} {dcIds : IdGenerator}
    (options : List (String × Nat)) (hnd : (rfs.map Prod.fst).Nodup)
    (hpos : ∀ p ∈ rfs, 0 < p.2.count) :
    ((initFactors rfs dcIds options).1.map Prod.fst).Nodup ∧
      ∀ p ∈ (initFactors rfs dcIds options).1, 0 < p.2.count := by
  induction options generalizing rfs dcIds with
  | nil => exact ⟨hnd, hpos⟩
  | cons option options ih =>
    obtain ⟨key, count⟩ := option
    rw [initFactors]
    split_ifs with hcount
    · exact ih (nodup_insertFactor hnd _ _) (count_pos_insertFactor hpos hcount)
    · exact ih (nodup_insertFactor hnd _ _) (count_pos_insertFactor hpos hcount)
    · exact ih hnd hpos

/-- The strategy a class name selects, by its suffix. -/
def typeOf (strategyClass : String) : StrategyType :=
  if strategyClass.endsWith "NetworkTopologyStrategy" then .networkTopologyStrategy
  else if strategyClass.endsWith "SimpleStrategy" then .simpleStrategy
  else .nonReplicated

/-- `ReplicationStrategy::init`: datacenter names met in the options get ids from the map's
`dc_ids_`. -/
def init (dcIds : IdGenerator) (row : KeyspaceRow) : ReplicationStrategy × IdGenerator :=
  let r := initFactors [] dcIds row.options
  (⟨typeOf row.strategyClass, r.1,
    (@initFactors_wf [] dcIds row.options List.nodup_nil (by simp)).1,
    (@initFactors_wf [] dcIds row.options List.nodup_nil (by simp)).2⟩, r.2)

/-- `ReplicationFactorMap` equality, as the hash maps compare: the same size and every entry
found in the other map with an equal factor. -/
def sameFactors (a b : List (Nat × ReplicationFactor)) : Bool :=
  a.length == b.length && a.all fun p => b.lookup p.1 == some p.2

/-- `ReplicationStrategy::operator!=` -/
def differs (s other : ReplicationStrategy) : Bool :=
  s.type != other.type || !sameFactors s.replicationFactors other.replicationFactors

end ReplicationStrategy

/-! ### Maps keyed by keyspace name -/

/-- A hash map keyed by keyspace name, by its entries. -/
abbrev KeyspaceMap (β : Type) := List (String × β)

namespace KeyspaceMap

variable {β : Type}

/-- `map[key] = value` -/
def insert (m : KeyspaceMap β) (key : String) (value : β) : KeyspaceMap β :=
  (key, value) :: m.filter (·.1 != key)

/-- `map.erase(key)` -/
def erase (m : KeyspaceMap β) (key : String) : KeyspaceMap β :=
  m.filter (·.1 != key)

@[simp] lemma lookup_insert_self (m : KeyspaceMap β) (key : String) (value : β) :
    (m.insert key value).lookup key = some value := by
  simp [insert]

end KeyspaceMap

/-! ### The state -/

/-- `TokenMapImpl<Partitioner>`. `datacenters_` is rebuilt from the hosts before every use and
is computed where it is used. -/
structure TokenMapImpl (τ α : Type) where
  tokens : List (τ × α)
  hosts : List (Host α)
  replicas : KeyspaceMap (List (τ × List α))
  strategies : KeyspaceMap ReplicationStrategy
  rackIds : IdGenerator
  dcIds : IdGenerator

namespace TokenMapImpl

/-- `TokenMapImpl()` -/
def empty : TokenMapImpl τ α := ⟨[], [], [], [], .empty, .empty⟩

section Operations

variable [DecidableEq α]

/-- The ring with each address resolved to its host's current record. -/
def ring (m : TokenMapImpl τ α) : List (τ × Host α) :=
  m.tokens.filterMap fun th => (m.hosts.find? (·.address == th.2)).map (th.1, ·)

/-- `update_host_ids`: the rack and datacenter ids of the host's names. -/
def updateHostIds (m : TokenMapImpl τ α) (host : Host α) : Host α × TokenMapImpl τ α :=
  let rack := m.rackIds.get host.rack
  let dc := m.dcIds.get host.dc
  ({ host with rackId := rack.1, dcId := dc.1 }, { m with rackIds := rack.2, dcIds := dc.2 })

/-- `hosts_.insert(host)`: the host object of an address is unique, so its record is replaced. -/
def insertHost (hosts : List (Host α)) (host : Host α) : List (Host α) :=
  hosts.filter (·.address != host.address) ++ [host]

/-- `hosts_.erase(host)` -/
def eraseHost (hosts : List (Host α)) (address : α) : List (Host α) :=
  hosts.filter (·.address != address)

/-- `add_host`: the host's tokens are appended unsorted. -/
def addHost (m : TokenMapImpl τ α) (host : Host α) (tokens : List τ) : TokenMapImpl τ α :=
  let updated := m.updateHostIds host
  { updated.2 with hosts := insertHost m.hosts updated.1,
                   tokens := m.tokens ++ tokens.map (·, host.address) }

/-- `build_datacenters(hosts_, datacenters_)` followed by
`strategy.build_replicas(tokens_, datacenters_, replicas_[keyspace_name])`. -/
def replicaVector (m : TokenMapImpl τ α) (strategy : ReplicationStrategy) : List (τ × List α) :=
  (strategy.buildReplicas m.ring (buildDatacenters m.hosts)).map
    fun r => (r.1, r.2.map Host.address)

/-- `build_replicas`: every keyspace's vector from its strategy. -/
def buildReplicas (m : TokenMapImpl τ α) : TokenMapImpl τ α :=
  { m with replicas := m.strategies.foldl (fun replicas ks =>
      replicas.insert ks.1 (m.replicaVector ks.2)) m.replicas }

/-- `remove_host_tokens`: `std::remove_copy_if` keeps the other hosts' tokens in order. -/
def removeHostTokens (m : TokenMapImpl τ α) (address : α) : TokenMapImpl τ α :=
  { m with tokens := m.tokens.filter (·.2 != address) }

/-- `remove_host_and_build` -/
def removeHostAndBuild (m : TokenMapImpl τ α) (address : α) : TokenMapImpl τ α :=
  buildReplicas { m.removeHostTokens address with hosts := eraseHost m.hosts address }

/-- `clear_tokens_and_hosts` -/
def clearTokensAndHosts (m : TokenMapImpl τ α) : TokenMapImpl τ α :=
  { m with tokens := [], hosts := [] }

/-- One row of `update_keyspace`: a new or changed strategy is stored, and its replica vector
built at once when `should_build_replicas` is set. -/
def updateKeyspaceRow (shouldBuildReplicas : Bool) (m : TokenMapImpl τ α) (row : KeyspaceRow) :
    TokenMapImpl τ α :=
  match row.keyspaceName with
  -- "Unable to get column value for 'keyspace_name'"
  | none => m
  | some keyspaceName =>
    let init := ReplicationStrategy.init m.dcIds row
    let strategy := init.1
    let m := { m with dcIds := init.2 }
    if (m.strategies.lookup keyspaceName).all (·.differs strategy) then
      let m := { m with strategies := m.strategies.insert keyspaceName strategy }
      if shouldBuildReplicas then
        { m with replicas := m.replicas.insert keyspaceName (m.replicaVector strategy) }
      else m
    else m

/-- `update_keyspace` -/
def updateKeyspace (m : TokenMapImpl τ α) (rows : List KeyspaceRow)
    (shouldBuildReplicas : Bool) : TokenMapImpl τ α :=
  rows.foldl (updateKeyspaceRow shouldBuildReplicas) m

/-- `add_keyspaces` -/
def addKeyspaces (m : TokenMapImpl τ α) (rows : List KeyspaceRow) : TokenMapImpl τ α :=
  m.updateKeyspace rows false

/-- `update_keyspaces_and_build` -/
def updateKeyspacesAndBuild (m : TokenMapImpl τ α) (rows : List KeyspaceRow) :
    TokenMapImpl τ α :=
  m.updateKeyspace rows true

/-- `drop_keyspace` -/
def dropKeyspace (m : TokenMapImpl τ α) (keyspaceName : String) : TokenMapImpl τ α :=
  { m with replicas := m.replicas.erase keyspaceName,
           strategies := m.strategies.erase keyspaceName }

/-- `clear_replicas_and_strategies` -/
def clearReplicasAndStrategies (m : TokenMapImpl τ α) : TokenMapImpl τ α :=
  { m with replicas := [], strategies := [] }

section Fields

variable (m : TokenMapImpl τ α) (host : Host α) (tokens : List τ)

@[simp] lemma addHost_replicas : (m.addHost host tokens).replicas = m.replicas := rfl
@[simp] lemma addHost_strategies : (m.addHost host tokens).strategies = m.strategies := rfl
@[simp] lemma buildReplicas_strategies : m.buildReplicas.strategies = m.strategies := rfl
@[simp] lemma buildReplicas_tokens : m.buildReplicas.tokens = m.tokens := rfl
@[simp] lemma buildReplicas_hosts : m.buildReplicas.hosts = m.hosts := rfl

end Fields

lemma updateKeyspaceRow_tokens (b : Bool) (m : TokenMapImpl τ α) (row : KeyspaceRow) :
    (updateKeyspaceRow b m row).tokens = m.tokens := by
  unfold updateKeyspaceRow
  split
  · rfl
  · dsimp only
    split_ifs <;> rfl

lemma updateKeyspaceRow_hosts (b : Bool) (m : TokenMapImpl τ α) (row : KeyspaceRow) :
    (updateKeyspaceRow b m row).hosts = m.hosts := by
  unfold updateKeyspaceRow
  split
  · rfl
  · dsimp only
    split_ifs <;> rfl

/-- `update_keyspace` on one row either leaves the keyspaces as they are, or stores a strategy
for the row's keyspace and possibly its vector, built over the current ring and hosts. -/
lemma updateKeyspaceRow_cases (b : Bool) (m : TokenMapImpl τ α) (row : KeyspaceRow) :
    ((updateKeyspaceRow b m row).strategies = m.strategies ∧
      (updateKeyspaceRow b m row).replicas = m.replicas) ∨
    ∃ ks s, row.keyspaceName = some ks ∧
      (updateKeyspaceRow b m row).strategies = m.strategies.insert ks s ∧
      ((updateKeyspaceRow b m row).replicas = m.replicas ∨
        (updateKeyspaceRow b m row).replicas = m.replicas.insert ks (m.replicaVector s)) := by
  unfold updateKeyspaceRow
  split
  · exact .inl ⟨rfl, rfl⟩
  · rename_i ks hname
    dsimp only
    split_ifs
    · exact .inr ⟨ks, _, hname, rfl, .inr rfl⟩
    · exact .inr ⟨ks, _, hname, rfl, .inl rfl⟩
    · exact .inl ⟨rfl, rfl⟩

variable [LinearOrder τ]

/-- `std::sort` of a ring by token. -/
def sortTokens (tokens : List (τ × α)) : List (τ × α) :=
  tokens.insertionSort fun a b => a.1 ≤ b.1

/-- `build` -/
def build (m : TokenMapImpl τ α) : TokenMapImpl τ α :=
  buildReplicas { m with tokens := sortTokens m.tokens }

@[simp] lemma build_strategies (m : TokenMapImpl τ α) : m.build.strategies = m.strategies := rfl
@[simp] lemma build_tokens (m : TokenMapImpl τ α) : m.build.tokens = sortTokens m.tokens := rfl

/-- `update_host_and_build`: the host's old tokens are removed, its new tokens sorted and
merged into the ring with `std::merge` on tokens, and everything is rebuilt. -/
def updateHostAndBuild (m : TokenMapImpl τ α) (host : Host α) (tokens : List τ) :
    TokenMapImpl τ α :=
  let m := m.removeHostTokens host.address
  let updated := m.updateHostIds host
  let newTokens := sortTokens (tokens.map (·, host.address))
  buildReplicas { updated.2 with hosts := insertHost m.hosts updated.1,
                                 tokens := m.tokens.merge newTokens fun a b => !(b.1 < a.1) }

/-- `get_replicas`: the replicas of the first entry whose token is greater than the key's
token, found by `std::upper_bound`, or of the first entry when there is none; `none` is
`NO_REPLICAS`. -/
def getReplicas (m : TokenMapImpl τ α) (hash : List UInt8 → τ) (keyspaceName : String)
    (routingKey : List UInt8) : Option (List α) :=
  match m.replicas.lookup keyspaceName with
  | none => none
  | some replicas =>
    let token := hash routingKey
    match replicas[UpperBound.upperBound (fun r => decide (token < r.1)) replicas]? with
    | some r => some r.2
    | none => replicas.head?.map (·.2)

/-! ### What each call changes -/

/-- The calls the session and the control connection make on a token map. -/
inductive Op (τ α : Type)
  | addHost (host : Host α) (tokens : List τ)
  | updateHostAndBuild (host : Host α) (tokens : List τ)
  | removeHostAndBuild (address : α)
  | clearTokensAndHosts
  | addKeyspaces (rows : List KeyspaceRow)
  | updateKeyspacesAndBuild (rows : List KeyspaceRow)
  | dropKeyspace (keyspaceName : String)
  | clearReplicasAndStrategies
  | build

/-- One call. -/
def step (m : TokenMapImpl τ α) : Op τ α → TokenMapImpl τ α
  | .addHost host tokens => m.addHost host tokens
  | .updateHostAndBuild host tokens => m.updateHostAndBuild host tokens
  | .removeHostAndBuild address => m.removeHostAndBuild address
  | .clearTokensAndHosts => m.clearTokensAndHosts
  | .addKeyspaces rows => m.addKeyspaces rows
  | .updateKeyspacesAndBuild rows => m.updateKeyspacesAndBuild rows
  | .dropKeyspace keyspaceName => m.dropKeyspace keyspaceName
  | .clearReplicasAndStrategies => m.clearReplicasAndStrategies
  | .build => m.build

/-- A sequence of calls. -/
def run (m : TokenMapImpl τ α) (ops : List (Op τ α)) : TokenMapImpl τ α :=
  ops.foldl step m

end Operations

end TokenMapImpl

end CassandraDriver
