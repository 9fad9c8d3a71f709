import CassandraDriver.TokenMap.Basic
import CassandraDriver.Data.CyclicWalk

/-!
# Replica placement: `ReplicationStrategy::build_replicas`

The three placement rules of `token_map_impl.hpp`, over a ring given as the list of
`(token, host)` pairs in token order, in which a host may own several tokens (vnodes).
For every ring position the code walks the ring clockwise from that position and collects
replicas:

* `SimpleStrategy` pushes the host under the iterator until it has pushed the replication
  factor capped by the number of *tokens*;
* `NetworkTopologyStrategy` keeps, per datacenter, a replica count, the set of racks seen and
  a queue of hosts skipped because their rack was already seen, and stops once the sum of the
  per-datacenter replication factors (each capped by the datacenter's host count) is reached;
* a keyspace without a recognised strategy is owned by the token's host alone.
-/

namespace CassandraDriver

open CyclicWalk

variable {τ α : Type}

namespace ReplicationStrategy

/-! ### `SimpleStrategy` and no replication -/

/-- `build_replicas_non_replicated`. -/
def buildReplicasNonReplicated (tokens : List (τ × Host α)) : List (τ × List (Host α)) :=
  tokens.map fun th => (th.1, [th.2])

/-- `build_replicas_simple`. The `do … while (replicas->size() < num_replicas)` loop pushes one
host per step and so pushes `max 1 num_replicas` hosts from each position. -/
def buildReplicasSimple (s : ReplicationStrategy) (tokens : List (τ × Host α)) :
    List (τ × List (Host α)) :=
  match s.replicationFactors.lookup 1 with
  | none => []
  | some rf =>
    let numReplicas := min rf.count tokens.length
    tokens.mapIdx fun i th => (th.1, (cyclicWalk tokens i (max 1 numReplicas)).map Prod.snd)

/-! ### `NetworkTopologyStrategy` -/

/-- `DatacenterRackInfo`: what the walk from one ring position knows about a datacenter. -/
structure DatacenterRackInfo (α : Type) where
  replicaCount : Nat
  replicationFactor : Nat
  racksObserved : List Nat
  rackCount : Nat
  skippedEndpoints : List (Host α)

/-- `DatacenterRackInfoMap`, keyed by datacenter id. -/
abbrev DatacenterRackInfoMap (α : Type) := Nat → Option (DatacenterRackInfo α)

/-- The loop over `replication_factors_`: a datacenter with hosts gets its replication factor
capped by its host count, and `num_replicas` sums the capped factors. -/
def populateDcRacks (datacenters : DatacenterMap) (rfs : List (Nat × ReplicationFactor)) :
    DatacenterRackInfoMap α × Nat :=
  rfs.foldl (fun (acc : DatacenterRackInfoMap α × Nat) p =>
    match datacenters p.1 with
    | none => acc
    | some datacenter =>
      let replicationFactor := min p.2.count datacenter.numNodes
      (Function.update acc.1 p.1 (some ⟨0, replicationFactor, [], datacenter.racks.length, []⟩),
        acc.2 + replicationFactor))
    (fun _ => none, 0)

/-- Clear the replica counts, racks seen and skipped hosts before walking from a new token. -/
def resetDcRacks (dcRacks : DatacenterRackInfoMap α) : DatacenterRackInfoMap α :=
  fun dc => (dcRacks dc).map fun info =>
    { info with replicaCount := 0, racksObserved := [], skippedEndpoints := [] }

/-- The state of the walk from one ring position. -/
structure NtsState (α : Type) where
  dcRacks : DatacenterRackInfoMap α
  replicas : List (Host α)

/-- The `while` loop run once every rack of a datacenter has been seen: push the skipped hosts
in the order they were met until the datacenter's replication factor is reached. Returns the
replica count, the hosts still skipped and the replicas. -/
def drainSkipped (replicationFactor : Nat) :
    Nat → List (Host α) → List (Host α) → Nat × List (Host α) × List (Host α)
  | count, [], replicas => (count, [], replicas)
  | count, h :: hs, replicas =>
    if count < replicationFactor then drainSkipped replicationFactor (count + 1) hs (replicas ++ [h])
    else (count, h :: hs, replicas)

/-- One iteration of the inner loop of `build_replicas_network_topology`, on the host met. -/
def ntsStep (s : NtsState α) (host : Host α) : NtsState α :=
  match s.dcRacks host.dcId with
  | none => s
  | some info =>
    if info.replicationFactor ≤ info.replicaCount then s
    -- racks are spread first; a rackless host, or any host once every rack is seen, is taken
    else if host.rackId = 0 ∨ info.racksObserved.length = info.rackCount then
      ⟨Function.update s.dcRacks host.dcId
        (some { info with replicaCount := info.replicaCount + 1 }), s.replicas ++ [host]⟩
    else if host.rackId ∈ info.racksObserved then
      ⟨Function.update s.dcRacks host.dcId
        (some { info with skippedEndpoints := info.skippedEndpoints ++ [host] }), s.replicas⟩
    else
      let racksObserved := info.racksObserved.insert host.rackId
      if racksObserved.length = info.rackCount then
        let (replicaCount, skippedEndpoints, replicas) := drainSkipped info.replicationFactor
          (info.replicaCount + 1) info.skippedEndpoints (s.replicas ++ [host])
        ⟨Function.update s.dcRacks host.dcId (some { info with
          replicaCount, racksObserved, skippedEndpoints }), replicas⟩
      else
        ⟨Function.update s.dcRacks host.dcId (some { info with
          replicaCount := info.replicaCount + 1, racksObserved := racksObserved }),
          s.replicas ++ [host]⟩

/-- The inner loop: visit the hosts of one lap while fewer than `num_replicas` are taken. -/
def ntsLoop (numReplicas : Nat) : List (Host α) → NtsState α → NtsState α
  | [], s => s
  | host :: hosts, s =>
    if s.replicas.length < numReplicas then ntsLoop numReplicas hosts (ntsStep s host) else s

/-- `build_replicas_network_topology`. -/
def buildReplicasNetworkTopology (s : ReplicationStrategy) (tokens : List (τ × Host α))
    (datacenters : DatacenterMap) : List (τ × List (Host α)) :=
  if s.replicationFactors.isEmpty then []
  else
    let populated : DatacenterRackInfoMap α × Nat :=
      populateDcRacks datacenters s.replicationFactors
    if populated.2 = 0 then []
    else
      tokens.mapIdx fun i th =>
        (th.1, (ntsLoop populated.2 ((cyclicWalk tokens i tokens.length).map Prod.snd)
          ⟨resetDcRacks populated.1, []⟩).replicas)

/-- `ReplicationStrategy::build_replicas`. -/
def buildReplicas (s : ReplicationStrategy) (tokens : List (τ × Host α))
    (datacenters : DatacenterMap) : List (τ × List (Host α)) :=
  match s.type with
  | .networkTopologyStrategy => s.buildReplicasNetworkTopology tokens datacenters
  | .simpleStrategy => s.buildReplicasSimple tokens
  | .nonReplicated => buildReplicasNonReplicated tokens

/-- Every strategy gives either one replica list per ring token, in ring order, or none. -/
lemma map_fst_buildReplicas (s : ReplicationStrategy) (tokens : List (τ × Host α))
    (datacenters : DatacenterMap) :
    (s.buildReplicas tokens datacenters).map Prod.fst = tokens.map Prod.fst ∨
      s.buildReplicas tokens datacenters = [] := by
  have hmapIdx : ∀ f : Nat → τ × Host α → List (Host α),
      (tokens.mapIdx fun i th => (th.1, f i th)).map Prod.fst = tokens.map Prod.fst := by
    intro f
    apply List.ext_getElem <;> simp
  unfold buildReplicas
  split
  · simp only [buildReplicasNetworkTopology]
    split_ifs
    · exact .inr rfl
    · exact .inr rfl
    · exact .inl (hmapIdx _)
  · unfold buildReplicasSimple
    split
    · exact .inr rfl
    · exact .inl (hmapIdx _)
  · left
    simp [buildReplicasNonReplicated]

/-! ### What `build_replicas_simple` computes -/

section Simple

variable {s : ReplicationStrategy} {rf : ReplicationFactor} {tokens : List (τ × Host α)}

/-- From every position the simple strategy takes the first `min rf n` ring entries met
clockwise, `n` being the number of tokens, not of hosts. -/
theorem buildReplicasSimple_getElem? (h : s.replicationFactors.lookup 1 = some rf) (i : Nat) :
    (s.buildReplicasSimple tokens)[i]? = tokens[i]?.map fun th =>
      (th.1, ((tokens.rotate i).map Prod.snd).take (min rf.count tokens.length)) := by
  have hpos := count_pos_of_lookup h
  simp only [buildReplicasSimple, h, List.getElem?_mapIdx]
  cases hi : tokens[i]? with
  | none => rfl
  | some th =>
    have hlt : i < tokens.length := (List.getElem?_eq_some_iff.mp hi).1
    -- the `do … while` loop pushes `max 1 num_replicas` hosts, and here `num_replicas ≥ 1`
    have hk : max 1 (min rf.count tokens.length) = min rf.count tokens.length := by omega
    simp only [Option.map_some, hk, cyclicWalk_eq_take_rotate hlt (Nat.min_le_right _ _),
      List.map_take]

/-- The simple strategy gives one replica list per ring token. -/
theorem length_buildReplicasSimple (h : s.replicationFactors.lookup 1 = some rf) :
    (s.buildReplicasSimple tokens).length = tokens.length := by
  simp [buildReplicasSimple, h]

/-- On a ring where every host owns a single token the simple strategy meets the contract of
replica placement: each replica list is duplicate-free, has `min rf (number of hosts)` entries
and lists, in order, the first distinct hosts met walking clockwise. -/
theorem buildReplicasSimple_of_addresses_nodup [DecidableEq α]
    (h : s.replicationFactors.lookup 1 = some rf) (hnd : (tokens.map (·.2.address)).Nodup)
    {i : Nat} (hi : i < tokens.length) :
    ∃ replicas, (s.buildReplicasSimple tokens)[i]? = some (tokens[i].1, replicas) ∧
      (replicas.map Host.address).Nodup ∧
      replicas.length = min rf.count (tokens.map (·.2.address)).eraseDups.length ∧
      replicas.map Host.address =
        ((tokens.rotate i).map (·.2.address)).eraseDups.take replicas.length := by
  have hrot : ((tokens.rotate i).map (·.2.address)).Nodup := by
    rw [List.map_rotate]
    exact List.nodup_rotate.mpr hnd
  refine ⟨((tokens.rotate i).map Prod.snd).take (min rf.count tokens.length), ?_, ?_, ?_, ?_⟩
  · simp [buildReplicasSimple_getElem? h, List.getElem?_eq_getElem hi]
  · rw [List.map_take, List.map_map]
    exact hrot.sublist (List.take_sublist _ _)
  · simp [List.eraseDups_of_nodup hnd]
  · rw [List.eraseDups_of_nodup hrot, List.map_take, List.map_map]
    simp [Function.comp_def]

/-- With vnodes the walk meets a host twice: host `1` owns the first two tokens and host `2`
the third, and a replication factor of `2` places host `1` twice on the first token and
never spreads that token to host `2`. -/
theorem buildReplicas_simple_vnodes :
    let a : Host Nat := ⟨1, "r1", "dc1", 1, 1⟩
    let b : Host Nat := ⟨2, "r1", "dc1", 1, 1⟩
    let simple : ReplicationStrategy :=
      ⟨.simpleStrategy, [(1, ⟨2, "replication_factor"⟩)], by decide, by decide⟩
    simple.buildReplicas [((0 : Int), a), (1, a), (2, b)] (buildDatacenters [a, b]) =
      [(0, [a, a]), (1, [a, b]), (2, [b, a])] := by
  decide

end Simple

/-- With vnodes the network topology walk also takes a host twice. Hosts `1` and `2` form one
datacenter with a single rack and a replication factor of `2`; host `1` owns the first two
tokens. From the first token the walk takes host `1`, sees every rack, and then takes the next
host met, host `1` again, so datacenter `1` gets host `1` twice and never host `2`. -/
theorem buildReplicas_networkTopology_vnodes :
    let a : Host Nat := ⟨1, "r1", "dc1", 1, 1⟩
    let b : Host Nat := ⟨2, "r1", "dc1", 1, 1⟩
    let nts : ReplicationStrategy :=
      ⟨.networkTopologyStrategy, [(1, ⟨2, "dc1"⟩)], by decide, by decide⟩
    nts.buildReplicas [((0 : Int), a), (1, a), (2, b)] (buildDatacenters [a, b]) =
      [(0, [a, a]), (1, [a, b]), (2, [b, a])] := by
  decide

end ReplicationStrategy

end CassandraDriver
