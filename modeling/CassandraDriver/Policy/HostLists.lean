import CassandraDriver.TokenMap.Basic
import CassandraDriver.Data.CyclicWalk

/-!
# Live-host lists of the load-balancing policies

The policies keep the hosts they plan queries over in vectors. `add_host` of `host.cpp` replaces
the host with the same address or appends the host, and `remove_host` removes the first host
with the address. `RoundRobinPolicy`, `LatencyAwarePolicy` and `PartitionAwarePolicy` keep their
`hosts_` with these two on every event, so their lists stay free of duplicates and hold exactly
the hosts whose last event brought them up. `DCAwarePolicy` appends a host of the local data
center with a raw `push_back`: `Session::internal_on_up` calls `on_up` twice for one host, and
the host is then listed twice; one `on_down` removes one of the two.

A query plan walks a list once around from its start index, so it yields a host twice exactly
when the list holds it twice.
-/

namespace CassandraDriver

variable {α : Type} [DecidableEq α]

/-- The events a load-balancing policy is told of. -/
inductive HostEvent (α : Type)
  | add (host : Host α)
  | remove (host : Host α)
  | up (host : Host α)
  | down (host : Host α)

namespace HostEvent

/-- The host of an event. -/
def host : HostEvent α → Host α
  | add h | remove h | up h | down h => h

/-- Whether the event leaves its host live: `on_add` and `on_up`. -/
def isLive : HostEvent α → Bool
  | add _ | up _ => true
  | remove _ | down _ => false

/-- The most recent event of a list, in the order they are delivered, about an address. -/
def last : List (HostEvent α) → α → Option (HostEvent α)
  | [], _ => none
  | e :: es, a => (last es a).or (if e.host.address = a then some e else none)

end HostEvent

/-- `HostDistance` -/
inductive HostDistance
  | local | remote | ignore
  deriving DecidableEq, Repr

/-- The session's `HostMap`: hosts keyed by address, so no address is there twice. -/
structure HostMap (α : Type) where
  hosts : List (Host α)
  nodup : (hosts.map (·.address)).Nodup

namespace HostVec

/-- `add_host`: the first host with the address is replaced, or the host appended. -/
def addHost : List (Host α) → Host α → List (Host α)
  | [], host => [host]
  | h :: hs, host => if h.address = host.address then host :: hs else h :: addHost hs host

/-- `remove_host`: the first host with the address is removed. -/
def removeHost : List (Host α) → Host α → List (Host α)
  | [], _ => []
  | h :: hs, host => if h.address = host.address then hs else h :: removeHost hs host

/-- The update of a list kept with `add_host` and `remove_host`: `on_add` and `on_up` add the
host, `on_remove` and `on_down` remove it. -/
def onEvent (hosts : List (Host α)) : HostEvent α → List (Host α)
  | .add host | .up host => addHost hosts host
  | .remove host | .down host => removeHost hosts host

/-- The list after the events, delivered in order. -/
def run (hosts : List (Host α)) (events : List (HostEvent α)) : List (Host α) :=
  events.foldl onEvent hosts

/-- What the list should hold after the events: a host whose address some event names is there
when the last such event is its own `on_add` or `on_up`; any other host is there when it was
at the start. -/
def liveAfter (initial : List (Host α)) (events : List (HostEvent α)) (x : Host α) : Bool :=
  match HostEvent.last events x.address with
  | some e => e.isLive && decide (x = e.host)
  | none => decide (x ∈ initial)

end HostVec

/-- `RoundRobinPolicy::init`: `hosts_` starts empty and every host of the map is appended. -/
def RoundRobinPolicy.init (hosts : HostMap α) : List (Host α) := hosts.hosts

/-- `LatencyAwarePolicy::init` -/
def LatencyAwarePolicy.init (hosts : HostMap α) : List (Host α) := hosts.hosts

/-- `PartitionAwarePolicy::init` -/
def PartitionAwarePolicy.init (hosts : HostMap α) : List (Host α) := hosts.hosts

/-- `RoundRobinPolicy::hosts_` after an event. -/
def RoundRobinPolicy.onEvent (hosts : List (Host α)) (e : HostEvent α) : List (Host α) :=
  HostVec.onEvent hosts e

/-- `LatencyAwarePolicy::hosts_` after an event. -/
def LatencyAwarePolicy.onEvent (hosts : List (Host α)) (e : HostEvent α) : List (Host α) :=
  HostVec.onEvent hosts e

/-- `PartitionAwarePolicy::hosts_` after an event. -/
def PartitionAwarePolicy.onEvent (hosts : List (Host α)) (e : HostEvent α) : List (Host α) :=
  HostVec.onEvent hosts e

/-- The hosts a query plan yields from a list: the count of remaining hosts starts at the size of
the list, and each step takes `hosts[index++ % size]` when it is up. -/
def QueryPlan.walk (isUp : Host α → Bool) (hosts : List (Host α)) (startIndex : Nat) :
    List (Host α) :=
  (CyclicWalk.cyclicWalk hosts (startIndex % hosts.length) hosts.length).filter isUp

/-- `RoundRobinQueryPlan::compute_next`, step after step. -/
def RoundRobinQueryPlan.hosts (isUp : Host α → Bool) (hosts : List (Host α))
    (startIndex : Nat) : List (Host α) :=
  QueryPlan.walk isUp hosts startIndex

/-- `DCAwarePolicy`: the local data center, how many hosts of each remote one a plan may use, the
live hosts of the local data center and those of each remote one. -/
structure DCAwarePolicy (α : Type) where
  localDc : String
  usedHostsPerRemoteDc : Nat
  localDcLiveHosts : List (Host α)
  perRemoteDcLiveHosts : List (String × List (Host α))

namespace DCAwarePolicy

/-- `PerDCHostMap::add_host_to_dc`: a new data center gets a list of the host alone. -/
def addHostToDc (map : List (String × List (Host α))) (dc : String) (host : Host α) :
    List (String × List (Host α)) :=
  match map.lookup dc with
  | none => map ++ [(dc, [host])]
  | some hosts => map.map fun e => if e.1 = dc then (e.1, HostVec.addHost hosts host) else e

/-- `PerDCHostMap::remove_host_from_dc` -/
def removeHostFromDc (map : List (String × List (Host α))) (dc : String) (host : Host α) :
    List (String × List (Host α)) :=
  map.map fun e => if e.1 = dc then (e.1, HostVec.removeHost e.2 host) else e

/-- `on_add`: the first host with a data center names the local one when none is set; a local
host is pushed back, a remote one added to its data center's list. -/
def onAdd (p : DCAwarePolicy α) (host : Host α) : DCAwarePolicy α :=
  let p := if p.localDc = "" ∧ host.dc ≠ "" then { p with localDc := host.dc } else p
  if host.dc = p.localDc then { p with localDcLiveHosts := p.localDcLiveHosts ++ [host] }
  else { p with perRemoteDcLiveHosts := addHostToDc p.perRemoteDcLiveHosts host.dc host }

/-- `on_remove` -/
def onRemove (p : DCAwarePolicy α) (host : Host α) : DCAwarePolicy α :=
  if host.dc = p.localDc then
    { p with localDcLiveHosts := HostVec.removeHost p.localDcLiveHosts host }
  else { p with perRemoteDcLiveHosts := removeHostFromDc p.perRemoteDcLiveHosts host.dc host }

/-- `on_up` -/
def onUp (p : DCAwarePolicy α) (host : Host α) : DCAwarePolicy α := p.onAdd host

/-- `on_down` -/
def onDown (p : DCAwarePolicy α) (host : Host α) : DCAwarePolicy α := p.onRemove host

/-- `init`: the connected host names the local data center when none is set, and every host of
the session's map is added. -/
def init (p : DCAwarePolicy α) (connectedHost : Option (Host α)) (hosts : HostMap α) :
    DCAwarePolicy α :=
  let p := match connectedHost with
    | some h => if p.localDc = "" ∧ h.dc ≠ "" then { p with localDc := h.dc } else p
    | none => p
  hosts.hosts.foldl onAdd p

/-- `distance`: local for the local data center (or when none is set), remote for the first
`used_hosts_per_remote_dc` hosts of a remote one, ignored otherwise. -/
def distance (p : DCAwarePolicy α) (host : Host α) : HostDistance :=
  if p.localDc = "" ∨ host.dc = p.localDc then .local
  else if (((p.perRemoteDcLiveHosts.lookup host.dc).getD []).take p.usedHostsPerRemoteDc).any
      (·.address = host.address) then .remote
  else .ignore

/-- The local hosts of `DCAwareQueryPlan::compute_next`: `local_remaining_` starts at the size
of the local list and each step takes `get_next_host(hosts_, index_++)`. -/
def localQueryPlan (isUp : Host α → Bool) (p : DCAwarePolicy α) (startIndex : Nat) :
    List (Host α) :=
  QueryPlan.walk isUp p.localDcLiveHosts startIndex

end DCAwarePolicy

/-- `Session::internal_on_up`, as the policy sees it: unless the policy ignores the host, it is
told `on_up` twice, once before each round of `add_pool_async`. -/
def Session.internalOnUp {P : Type} (distance : P → Host α → HostDistance)
    (onUp : P → Host α → P) (p : P) (host : Host α) : P :=
  if distance p host = .ignore then p else onUp (onUp p host) host

/-! ### `add_host` and `remove_host` -/

namespace HostVec

/-- The addresses after `add_host`: unchanged when the address was there, with it appended
otherwise. -/
lemma map_address_addHost (hosts : List (Host α)) (host : Host α) :
    (addHost hosts host).map (·.address) =
      if host.address ∈ hosts.map (·.address) then hosts.map (·.address)
      else hosts.map (·.address) ++ [host.address] := by
  induction hosts with
  | nil => simp [addHost]
  | cons h hs ih =>
    by_cases hh : h.address = host.address
    · simp [addHost, hh]
    · have hne : host.address ≠ h.address := Ne.symm hh
      simp only [addHost, if_neg hh, List.map_cons, ih, List.mem_cons, hne, false_or]
      split_ifs <;> rfl

/-- The addresses after `remove_host`: the first occurrence of the address is erased. -/
lemma map_address_removeHost (hosts : List (Host α)) (host : Host α) :
    (removeHost hosts host).map (·.address) = (hosts.map (·.address)).erase host.address := by
  induction hosts with
  | nil => rfl
  | cons h hs ih =>
    by_cases hh : h.address = host.address
    · simp [removeHost, hh]
    · simp [removeHost, hh, ih]


/-- On a list without duplicate addresses, `add_host` leaves the host and the hosts with other
addresses. -/
lemma mem_addHost {hosts : List (Host α)} (hnodup : (hosts.map (·.address)).Nodup)
    (host x : Host α) :
    x ∈ addHost hosts host ↔ x = host ∨ (x ∈ hosts ∧ x.address ≠ host.address) := by
  induction hosts with
  | nil => simp [addHost]
  | cons h hs ih =>
    obtain ⟨hh, hs_nodup⟩ := List.nodup_cons.mp hnodup
    by_cases hhost : h.address = host.address
    · -- the first host with the address is replaced, and no other host has it
      have hother : ∀ y ∈ hs, y.address ≠ host.address := fun y hy hy' =>
        hh (List.mem_map.mpr ⟨y, hy, hy'.trans hhost.symm⟩)
      simp only [addHost, if_pos hhost, List.mem_cons]
      constructor
      · rintro (rfl | hx)
        · exact .inl rfl
        · exact .inr ⟨.inr hx, hother x hx⟩
      · rintro (rfl | ⟨rfl | hx, hne⟩)
        · exact .inl rfl
        · exact absurd hhost hne
        · exact .inr hx
    · simp only [addHost, if_neg hhost, List.mem_cons, ih hs_nodup]
      constructor
      · rintro (rfl | rfl | ⟨hx, hne⟩)
        · exact .inr ⟨.inl rfl, hhost⟩
        · exact .inl rfl
        · exact .inr ⟨.inr hx, hne⟩
      · rintro (rfl | ⟨rfl | hx, hne⟩)
        · exact .inr (.inl rfl)
        · exact .inl rfl
        · exact .inr (.inr ⟨hx, hne⟩)

/-- On a list without duplicate addresses, `remove_host` leaves the hosts with other
addresses. -/
lemma mem_removeHost {hosts : List (Host α)} (hnodup : (hosts.map (·.address)).Nodup)
    (host x : Host α) :
    x ∈ removeHost hosts host ↔ x ∈ hosts ∧ x.address ≠ host.address := by
  induction hosts with
  | nil => simp [removeHost]
  | cons h hs ih =>
    obtain ⟨hh, hs_nodup⟩ := List.nodup_cons.mp hnodup
    by_cases hhost : h.address = host.address
    · have hother : ∀ y ∈ hs, y.address ≠ host.address := fun y hy hy' =>
        hh (List.mem_map.mpr ⟨y, hy, hy'.trans hhost.symm⟩)
      simp only [removeHost, if_pos hhost, List.mem_cons]
      constructor
      · exact fun hx => ⟨.inr hx, hother x hx⟩
      · rintro ⟨rfl | hx, hne⟩
        · exact absurd hhost hne
        · exact hx
    · simp only [removeHost, if_neg hhost, List.mem_cons, ih hs_nodup]
      constructor
      · rintro (rfl | ⟨hx, hne⟩)
        · exact ⟨.inl rfl, hhost⟩
        · exact ⟨.inr hx, hne⟩
      · rintro ⟨rfl | hx, hne⟩
        · exact .inl rfl
        · exact .inr ⟨hx, hne⟩

lemma nodup_addHost {hosts : List (Host α)} (hnodup : (hosts.map (·.address)).Nodup)
    (host : Host α) : ((addHost hosts host).map (·.address)).Nodup := by
  rw [map_address_addHost]
  split_ifs with hmem
  · exact hnodup
  · exact hnodup.append (List.nodup_singleton _) (by simpa using hmem)

lemma nodup_removeHost {hosts : List (Host α)} (hnodup : (hosts.map (·.address)).Nodup)
    (host : Host α) : ((removeHost hosts host).map (·.address)).Nodup := by
  rw [map_address_removeHost]
  exact hnodup.erase _

/-- `add_host` twice is `add_host` once. -/
@[simp] lemma addHost_addHost (hosts : List (Host α)) (host : Host α) :
    addHost (addHost hosts host) host = addHost hosts host := by
  induction hosts with
  | nil => simp [addHost]
  | cons h hs ih =>
    by_cases hh : h.address = host.address
    · simp [addHost, hh]
    · simp [addHost, hh, ih]

lemma nodup_onEvent {hosts : List (Host α)} (hnodup : (hosts.map (·.address)).Nodup)
    (e : HostEvent α) : ((onEvent hosts e).map (·.address)).Nodup := by
  cases e with
  | add host | up host => exact nodup_addHost hnodup host
  | remove host | down host => exact nodup_removeHost hnodup host

/-- After an event, a host with the event's address is listed exactly when the event leaves it
live and it is the event's host; the other hosts keep their membership. -/
lemma mem_onEvent {hosts : List (Host α)} (hnodup : (hosts.map (·.address)).Nodup)
    (e : HostEvent α) (x : Host α) :
    x ∈ onEvent hosts e ↔
      if x.address = e.host.address then e.isLive = true ∧ x = e.host else x ∈ hosts := by
  cases e with
  | add host | up host =>
    simp only [onEvent, HostEvent.host, HostEvent.isLive, mem_addHost hnodup, true_and]
    split_ifs with hx
    · exact ⟨fun h => h.resolve_right fun h' => h'.2 hx, .inl⟩
    · exact ⟨fun h => (h.resolve_left fun h' => hx (h' ▸ rfl)).1, fun h => .inr ⟨h, hx⟩⟩
  | remove host | down host =>
    simp only [onEvent, HostEvent.host, HostEvent.isLive, mem_removeHost hnodup]
    split_ifs with hx <;> simp [hx]

/-- The spec after one event: its host when it leaves it live, the start for the others. -/
lemma liveAfter_singleton (hosts : List (Host α)) (e : HostEvent α) (x : Host α) :
    liveAfter hosts [e] x =
      if x.address = e.host.address then e.isLive && decide (x = e.host)
      else decide (x ∈ hosts) := by
  by_cases hx : x.address = e.host.address
  · simp [liveAfter, HostEvent.last, hx]
  · simp [liveAfter, HostEvent.last, hx, Ne.symm hx]

/-- Events before the last one on an address do not matter to it. -/
lemma liveAfter_cons (hosts : List (Host α)) (e : HostEvent α) (es : List (HostEvent α))
    (x : Host α) :
    liveAfter hosts (e :: es) x =
      match HostEvent.last es x.address with
      | some e' => e'.isLive && decide (x = e'.host)
      | none => liveAfter hosts [e] x := by
  cases hlast : HostEvent.last es x.address <;> simp [liveAfter, HostEvent.last, hlast]

/-- One event on a list without duplicate addresses sets it to the spec of that event. -/
lemma mem_onEvent_iff_liveAfter {hosts : List (Host α)} (hnodup : (hosts.map (·.address)).Nodup)
    (e : HostEvent α) (x : Host α) : x ∈ onEvent hosts e ↔ liveAfter hosts [e] x = true := by
  rw [mem_onEvent hnodup, liveAfter_singleton]
  split_ifs <;> simp

/-- Over any sequence of events, a list kept with `add_host` and `remove_host` stays free of
duplicate addresses and holds exactly the hosts the last event on their address left live. -/
theorem run_spec {hosts : List (Host α)} (hnodup : (hosts.map (·.address)).Nodup)
    (events : List (HostEvent α)) :
    ((run hosts events).map (·.address)).Nodup ∧
      ∀ x, x ∈ run hosts events ↔ liveAfter hosts events x = true := by
  -- induction on the events, the starting list generalised: each event is a new start
  induction events generalizing hosts with
  | nil => exact ⟨hnodup, fun x => by simp [run, liveAfter, HostEvent.last]⟩
  | cons e es ih =>
    obtain ⟨hnodup', hmem⟩ := ih (nodup_onEvent hnodup e)
    refine ⟨hnodup', fun x => ?_⟩
    rw [run, List.foldl_cons, ← run, hmem x, liveAfter_cons]
    cases hlast : HostEvent.last es x.address with
    | some e' => simp [liveAfter, hlast]
    | none =>
      -- no later event names the address: the first event decides
      have hstart : liveAfter (onEvent hosts e) es x = decide (x ∈ onEvent hosts e) := by
        simp [liveAfter, hlast]
      simp only [hstart, decide_eq_true_iff, mem_onEvent_iff_liveAfter hnodup]

end HostVec

/-! ### Query plans -/

namespace QueryPlan

omit [DecidableEq α] in
/-- A plan walks the list once around from its start index: it is the list rotated to the start,
with the hosts that are down left out. -/
theorem walk_eq_filter_rotate (isUp : Host α → Bool) (hosts : List (Host α)) (startIndex : Nat) :
    walk isUp hosts startIndex = (hosts.rotate startIndex).filter isUp := by
  unfold walk
  rcases Nat.eq_zero_or_pos hosts.length with hnil | hpos
  · rw [List.length_eq_zero_iff.mp hnil]
    rfl
  · rw [CyclicWalk.cyclicWalk_length_eq_rotate (Nat.mod_lt _ hpos), List.rotate_mod]

omit [DecidableEq α] in
/-- A plan over a list without duplicate addresses yields no address twice. -/
theorem nodup_walk {hosts : List (Host α)} (hnodup : (hosts.map (·.address)).Nodup)
    (isUp : Host α → Bool) (startIndex : Nat) :
    ((walk isUp hosts startIndex).map (·.address)).Nodup := by
  have hrotate : ((hosts.rotate startIndex).map (·.address)).Nodup := by
    rw [List.map_rotate]
    exact List.nodup_rotate.mpr hnodup
  rw [walk_eq_filter_rotate]
  exact hrotate.sublist (List.filter_sublist.map _)

/-- A plan yields each host as often as the list holds it, when every host is up. -/
theorem count_walk (hosts : List (Host α)) (startIndex : Nat) (x : Host α) :
    (walk (fun _ => true) hosts startIndex).count x = hosts.count x := by
  rw [walk_eq_filter_rotate, List.filter_true]
  exact (List.rotate_perm hosts startIndex).count_eq x

end QueryPlan

/-! ### The policies kept with `add_host` and `remove_host` -/

section HostVecPolicies

variable (hostMap : HostMap α) (events : List (HostEvent α))

/-- `RoundRobinPolicy`, `LatencyAwarePolicy` and `PartitionAwarePolicy` keep their `hosts_`
free of duplicate addresses and exact from `init` on, over any sequence of events. -/
theorem hostVecPolicies_exact :
    let roundRobin := events.foldl RoundRobinPolicy.onEvent (RoundRobinPolicy.init hostMap)
    let latencyAware := events.foldl LatencyAwarePolicy.onEvent (LatencyAwarePolicy.init hostMap)
    let partitionAware :=
      events.foldl PartitionAwarePolicy.onEvent (PartitionAwarePolicy.init hostMap)
    ∀ hosts ∈ [roundRobin, latencyAware, partitionAware],
      (hosts.map (·.address)).Nodup ∧ ∀ x, x ∈ hosts ↔ HostVec.liveAfter hostMap.hosts events x := by
  intro roundRobin latencyAware partitionAware hosts hmem
  -- the three policies keep their lists with the same two functions
  have hsame : hosts = HostVec.run hostMap.hosts events := by
    simp only [List.mem_cons, List.not_mem_nil, or_false] at hmem
    rcases hmem with rfl | rfl | rfl <;> rfl
  rw [hsame]
  exact HostVec.run_spec hostMap.nodup events

/-- A round-robin plan over the hosts after any events yields no address twice. -/
theorem RoundRobinQueryPlan.nodup_hosts (isUp : Host α → Bool) (startIndex : Nat) :
    let hosts := events.foldl RoundRobinPolicy.onEvent (RoundRobinPolicy.init hostMap)
    ((RoundRobinQueryPlan.hosts isUp hosts startIndex).map (·.address)).Nodup :=
  QueryPlan.nodup_walk (HostVec.run_spec hostMap.nodup events).1 isUp startIndex

end HostVecPolicies

/-- The second `on_up` of `Session::internal_on_up` changes nothing for a list kept with
`add_host`. -/
theorem RoundRobinPolicy.internalOnUp_eq (hosts : List (Host α)) (host : Host α) :
    Session.internalOnUp (fun _ _ => .local) (fun hosts host => onEvent hosts (.up host)) hosts
      host = onEvent hosts (.up host) := by
  simp [Session.internalOnUp, onEvent, HostVec.onEvent]

/-! ### `DCAwarePolicy` -/

namespace DCAwarePolicy

/-- Every data center's list of remote hosts is free of duplicate addresses. -/
def RemoteNodup (p : DCAwarePolicy α) : Prop :=
  ∀ e ∈ p.perRemoteDcLiveHosts, (e.2.map (·.address)).Nodup

lemma nodup_of_mem_addHostToDc {map : List (String × List (Host α))}
    (hmap : ∀ e ∈ map, (e.2.map (·.address)).Nodup) (dc : String) (host : Host α) :
    ∀ e ∈ addHostToDc map dc host, (e.2.map (·.address)).Nodup := by
  intro e he
  unfold addHostToDc at he
  split at he
  · -- a new data center: its list is the host alone
    rcases List.mem_append.mp he with he | he
    · exact hmap e he
    · simp [List.mem_singleton.mp he]
  · -- a known one: its list gets `add_host`, the others are kept
    rename_i hosts hlookup
    have hhosts : (hosts.map (·.address)).Nodup := by
      obtain ⟨l₁, l₂, hl, -⟩ := List.lookup_eq_some_iff.mp hlookup
      exact hmap (dc, hosts) (by simp [hl])
    obtain ⟨e₀, he₀, rfl⟩ := List.mem_map.mp he
    split_ifs
    · exact HostVec.nodup_addHost hhosts host
    · exact hmap e₀ he₀

lemma nodup_of_mem_removeHostFromDc {map : List (String × List (Host α))}
    (hmap : ∀ e ∈ map, (e.2.map (·.address)).Nodup) (dc : String) (host : Host α) :
    ∀ e ∈ removeHostFromDc map dc host, (e.2.map (·.address)).Nodup := by
  intro e he
  obtain ⟨e₀, he₀, rfl⟩ := List.mem_map.mp he
  split_ifs
  · exact HostVec.nodup_removeHost (hmap e₀ he₀) host
  · exact hmap e₀ he₀

/-- `on_add` keeps the remote lists or adds the host to its data center's. -/
lemma perRemoteDcLiveHosts_onAdd (p : DCAwarePolicy α) (host : Host α) :
    (p.onAdd host).perRemoteDcLiveHosts = p.perRemoteDcLiveHosts ∨
      (p.onAdd host).perRemoteDcLiveHosts = addHostToDc p.perRemoteDcLiveHosts host.dc host := by
  dsimp only [DCAwarePolicy.onAdd]
  split_ifs <;> simp

lemma RemoteNodup.onAdd {p : DCAwarePolicy α} (hp : p.RemoteNodup) (host : Host α) :
    (p.onAdd host).RemoteNodup := by
  rcases perRemoteDcLiveHosts_onAdd p host with hkeep | hadd
  · rw [RemoteNodup, hkeep]
    exact hp
  · rw [RemoteNodup, hadd]
    exact nodup_of_mem_addHostToDc hp _ host

lemma RemoteNodup.onRemove {p : DCAwarePolicy α} (hp : p.RemoteNodup) (host : Host α) :
    (p.onRemove host).RemoteNodup := by
  unfold DCAwarePolicy.onRemove
  split_ifs
  · exact hp
  · exact nodup_of_mem_removeHostFromDc hp _ host

/-- The policy after an event. -/
def onEvent (p : DCAwarePolicy α) : HostEvent α → DCAwarePolicy α
  | .add host => p.onAdd host
  | .remove host => p.onRemove host
  | .up host => p.onUp host
  | .down host => p.onDown host

/-- The lists of the remote data centers stay free of duplicate addresses over any sequence of
events: they are kept with `add_host` and `remove_host`. -/
theorem RemoteNodup.run {p : DCAwarePolicy α} (hp : p.RemoteNodup) (events : List (HostEvent α)) :
    (events.foldl onEvent p).RemoteNodup := by
  induction events generalizing p with
  | nil => exact hp
  | cons e es ih =>
    apply ih
    cases e with
    | add host | up host => exact hp.onAdd host
    | remove host | down host => exact hp.onRemove host

/-- `on_add` of a host of the local data center pushes it back. -/
lemma onAdd_of_local {p : DCAwarePolicy α} {host : Host α} (hdc : host.dc = p.localDc) :
    p.onAdd host = { p with localDcLiveHosts := p.localDcLiveHosts ++ [host] } := by
  have hkeep : ¬(p.localDc = "" ∧ host.dc ≠ "") := fun h => h.2 (hdc.trans h.1)
  simp only [onAdd, if_neg hkeep, if_pos hdc]

lemma distance_of_local {p : DCAwarePolicy α} {host : Host α} (hdc : host.dc = p.localDc) :
    p.distance host = .local := by
  simp [distance, hdc]

/-- `Session::internal_on_up` lists a host of the local data center twice more. -/
theorem internalOnUp_of_local {p : DCAwarePolicy α} {host : Host α} (hdc : host.dc = p.localDc) :
    (Session.internalOnUp distance onUp p host).localDcLiveHosts =
      p.localDcLiveHosts ++ [host, host] := by
  have hfirst : p.onUp host = { p with localDcLiveHosts := p.localDcLiveHosts ++ [host] } :=
    onAdd_of_local hdc
  have hsecond : (p.onUp host).onUp host =
      { p.onUp host with localDcLiveHosts := (p.onUp host).localDcLiveHosts ++ [host] } :=
    onAdd_of_local (by rw [hfirst]; exact hdc)
  simp only [Session.internalOnUp, distance_of_local hdc, reduceCtorEq, if_false]
  rw [hsecond, hfirst]
  simp

/-- `on_remove` of a host of the local data center removes one entry with its address. -/
lemma onRemove_of_local {p : DCAwarePolicy α} {host : Host α} (hdc : host.dc = p.localDc) :
    (p.onRemove host).localDcLiveHosts = HostVec.removeHost p.localDcLiveHosts host := by
  simp [onRemove, hdc]

/-- A host of the local data center that comes up is listed twice; after it goes down it is still
listed once, and a plan over the list yields it twice. -/
theorem internalOnUp_listsHostTwice :
    let host : Host Nat := ⟨1, "", "dc1", 0, 0⟩
    let p : DCAwarePolicy Nat := ⟨"dc1", 0, [], []⟩
    let up := Session.internalOnUp distance onUp p host
    up.localDcLiveHosts = [host, host] ∧ (up.onDown host).localDcLiveHosts = [host] ∧
      up.localQueryPlan (fun _ => true) 0 = [host, host] := by
  intro host p up
  have hup : up.localDcLiveHosts = [host, host] := internalOnUp_of_local (p := p) rfl
  refine ⟨hup, ?_, ?_⟩
  · rw [onDown, onRemove_of_local (by exact rfl), hup]
    simp [HostVec.removeHost]
  · rw [localQueryPlan, QueryPlan.walk_eq_filter_rotate, hup]
    rfl

end DCAwarePolicy

end CassandraDriver
