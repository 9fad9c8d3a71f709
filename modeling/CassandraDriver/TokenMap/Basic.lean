import Mathlib.Data.List.Nodup
import Mathlib.Logic.Function.Basic

/-!
# Hosts, datacenters and replication factors of the token map

The data the replica computation of `token_map_impl.hpp` reads. A host is seen through the
fields the token map uses: its address (hosts are compared by address), its rack and
datacenter names, and the small integer ids that `TokenMapImpl::update_host_ids` assigns to
those names through an `IdGenerator`. Id `0` stands for an empty name.

Hash maps keyed by an id are modelled as functions to `Option`; the replication factor map,
which the code iterates over, is an association list whose keys are distinct.
-/

namespace CassandraDriver

/-- A host as the token map sees it. -/
structure Host (α : Type) where
  address : α
  rack : String
  dc : String
  rackId : Nat
  dcId : Nat
  deriving DecidableEq, Repr

/-! ### `IdGenerator` -/

/-- `IdGenerator`: names mapped to ids `1, 2, …` in the order they were first requested. -/
structure IdGenerator where
  ids : List (String × Nat)
  keys_nodup : (ids.map Prod.fst).Nodup
  keys_ne_empty : ∀ p ∈ ids, p.1 ≠ ""
  ids_eq_range : ids.map Prod.snd = List.range' 1 ids.length

namespace IdGenerator

/-- The generator that has handed out no id yet. -/
def empty : IdGenerator := ⟨[], List.nodup_nil, by simp, rfl⟩

/-- Record a fresh non-empty name under the next id, `ids_.size() + 1`. -/
def push (g : IdGenerator) (key : String) (hkey : key ≠ "")
    (hnew : key ∉ g.ids.map Prod.fst) : IdGenerator where
  ids := g.ids ++ [(key, g.ids.length + 1)]
  keys_nodup := by
    rw [List.map_append, List.nodup_append]
    refine ⟨g.keys_nodup, by simp, ?_⟩
    intro a ha b hb hab
    simp only [List.map_cons, List.map_nil, List.mem_singleton] at hb
    subst hb hab
    exact hnew ha
  keys_ne_empty := by
    intro p hp
    rcases List.mem_append.mp hp with hp | hp
    · exact g.keys_ne_empty p hp
    · simp only [List.mem_singleton] at hp
      exact hp ▸ hkey
  ids_eq_range := by
    rw [List.map_append, g.ids_eq_range, List.length_append, List.length_singleton,
      List.range'_concat]
    simp [Nat.add_comm]

/-- `IdGenerator::get`: `0` for the empty name, the recorded id of a known name, and
otherwise a new id one past the number of names seen. -/
def get (g : IdGenerator) (key : String) : Nat × IdGenerator :=
  if hkey : key = "" then (0, g)
  else
    match hlook : g.ids.lookup key with
    | some id => (id, g)
    | none =>
      (g.ids.length + 1, g.push key hkey (by
        intro hmem
        obtain ⟨p, hp, rfl⟩ := List.mem_map.mp hmem
        have : g.ids.lookup p.1 ≠ none := by
          simp [List.lookup_eq_none_iff]
          exact ⟨p.2, hp⟩
        exact this hlook))

end IdGenerator

/-! ### `Datacenter` and `build_datacenters` -/

/-- `Datacenter`: the number of hosts of a datacenter and the set of its rack ids. -/
structure Datacenter where
  numNodes : Nat
  racks : List Nat
  deriving DecidableEq, Repr

/-- `DatacenterMap`, keyed by datacenter id. -/
abbrev DatacenterMap := Nat → Option Datacenter

variable {α : Type}

/-- Count one more host of rack `rack` in the datacenter `dc`. -/
def DatacenterMap.addHost (result : DatacenterMap) (dc rack : Nat) : DatacenterMap :=
  let datacenter := (result dc).getD ⟨0, []⟩
  Function.update result dc (some ⟨datacenter.numNodes + 1, datacenter.racks.insert rack⟩)

/-- `build_datacenters`: only hosts with both a datacenter and a rack are counted. -/
def buildDatacenters (hosts : List (Host α)) : DatacenterMap :=
  hosts.foldl (fun result h =>
    if h.dcId ≠ 0 ∧ h.rackId ≠ 0 then result.addHost h.dcId h.rackId else result)
    (fun _ => none)

/-! ### Replication factors and strategies -/

/-- `ReplicationFactor`; the name is kept for logging only. -/
structure ReplicationFactor where
  count : Nat
  name : String
  deriving DecidableEq, Repr

/-- `ReplicationStrategy::Type`. -/
inductive StrategyType where
  | networkTopologyStrategy
  | simpleStrategy
  | nonReplicated
  deriving DecidableEq, Repr

/-- `ReplicationStrategy`: its type and its `ReplicationFactorMap`, keyed by datacenter id
(`1` for the `replication_factor` option of `SimpleStrategy`). `init` keeps only positive
counts, and the map holds one entry per key. -/
structure ReplicationStrategy where
  type : StrategyType
  replicationFactors : List (Nat × ReplicationFactor)
  keys_nodup : (replicationFactors.map Prod.fst).Nodup
  count_pos : ∀ p ∈ replicationFactors, 0 < p.2.count

/-- Every replication factor a strategy holds is positive. -/
lemma ReplicationStrategy.count_pos_of_lookup {s : ReplicationStrategy} {dc : Nat}
    {rf : ReplicationFactor} (h : s.replicationFactors.lookup dc = some rf) : 0 < rf.count := by
  obtain ⟨l₁, l₂, hl, -⟩ := List.lookup_eq_some_iff.mp h
  exact s.count_pos (dc, rf) (by simp [hl])

/-- `ReplicationStrategy()`: not replicated, with no replication factor. -/
def ReplicationStrategy.default : ReplicationStrategy :=
  ⟨.nonReplicated, [], List.nodup_nil, by simp⟩

end CassandraDriver
