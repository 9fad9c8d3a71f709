import Mathlib
import CassandraDriver.Policy.HostLists

/-!
# The query plan of `DCAwarePolicy`

`DCAwareQueryPlan::compute_next` keeps five fields across its calls and runs three loops. It
first walks the local hosts, `local_remaining_` steps of `get_next_host(hosts_, index_++)`.
Unless `skip_remote_dcs_for_local_cl_` holds and the consistency is `LOCAL_ONE` or
`LOCAL_QUORUM`, it then copies the names of the remote data centers into a set and, for each in
turn, walks the first `used_hosts_per_remote_dc_` of its hosts with `get_next_host_bounded`;
`index_` runs on across all of them. Each call returns the next host that is up.

Called until it returns none, a plan yields the local plan followed by one lap over the first
hosts of each remote data center (`hostsAux_new`): each call yields the first host of what the
plan has left and leaves fewer steps (`computeNext_some`), so enough calls drain it. When the
lists agree with the data centers of their hosts, that is every up host at distance `LOCAL`
once, then every up host at distance `REMOTE` once (`hostsAux_new_distance`). The lists can
disagree: a host with an empty data center name, added while no local data center is set, stays
in the local list after a later host names the local data center, and `distance` then ignores a
host the plan yields.
-/

namespace CassandraDriver

variable {α : Type} [DecidableEq α]

namespace QueryPlan

/-- A `while (remaining > 0)` loop of `compute_next`: each step counts one down, reads the host
at `index` and steps `index` on, and the first host that `accept` takes (one that is up, for
`DCAwareQueryPlan`) ends the loop; the count and the index are returned with it. A read past the
list, which the counts rule out, gives no host. -/
def nextUp (accept : Host α → Bool) (get : Nat → Option (Host α)) :
    Nat → Nat → Option (Host α) × Nat × Nat
  | 0, index => (none, 0, index)
  | remaining + 1, index =>
    match get index with
    | some host =>
      if accept host then (some host, remaining, index + 1)
      else nextUp accept get remaining (index + 1)
    | none => nextUp accept get remaining (index + 1)

/-- The hosts that `remaining` steps from `index` read. -/
def visited (get : Nat → Option (Host α)) (index remaining : Nat) : List (Host α) :=
  (List.range' index remaining).filterMap get

omit [DecidableEq α] in
lemma visited_succ (get : Nat → Option (Host α)) (index n : Nat) :
    visited get index (n + 1) = (get index).toList ++ visited get (index + 1) n := by
  cases h : get index <;> simp [visited, List.range'_succ, h]

omit [DecidableEq α] in
/-- What one call of the loop does: it stops after the first host that `accept` takes among those
its steps read, with the count and the index moved on together. -/
theorem nextUp_spec (accept : Host α → Bool) (get : Nat → Option (Host α))
    (remaining index : Nat) :
    let r := nextUp accept get remaining index
    r.2.2 + r.2.1 = index + remaining ∧ (r.1.isSome → r.2.1 < remaining) ∧
      (r.1 = none → r.2.1 = 0) ∧
      (visited get index remaining).filter accept =
        r.1.toList ++ (visited get r.2.2 r.2.1).filter accept := by
  induction remaining generalizing index with
  | zero => simp [nextUp, visited]
  | succ n ih =>
    obtain ⟨hsum, hlt, hnone, hrest⟩ := ih (index + 1)
    rw [visited_succ]
    cases hget : get index with
    | none =>
      -- a read past the list: the loop steps on
      simp only [nextUp, hget, Option.toList_none, List.nil_append]
      exact ⟨by omega, fun h => by have := hlt h; omega, hnone, hrest⟩
    | some host =>
      by_cases hup : accept host
      · simp [nextUp, hget, hup]
        omega
      · simp only [nextUp, hget, hup, Option.toList_some, List.singleton_append,
          List.filter_cons, if_false, Bool.false_eq_true]
        exact ⟨by omega, fun h => by have := hlt h; omega, hnone, hrest⟩

omit [DecidableEq α] in
/-- Reading `hosts[index % size]` for `size` steps is a walk once around the list. -/
lemma visited_mod_eq_cyclicWalk (l : List (Host α)) (index : Nat) :
    visited (fun j => l[j % l.length]?) index l.length =
      CyclicWalk.cyclicWalk l (index % l.length) l.length := by
  rcases Nat.eq_zero_or_pos l.length with hnil | hpos
  · rw [hnil]
    rfl
  have hget : (fun j => l[j % l.length]?) =
      some ∘ fun j => l.get ⟨j % l.length, Nat.mod_lt _ hpos⟩ := by
    funext j
    simp
  apply List.ext_getElem?
  intro j
  by_cases hj : j < l.length
  · rw [visited, hget, List.filterMap_eq_map, List.getElem?_map, List.getElem?_range' hj,
      CyclicWalk.getElem?_cyclicWalk (Nat.mod_lt _ hpos) hj, Nat.mod_add_mod]
    simp
  · rw [List.getElem?_eq_none (by simp [visited, hget]; omega),
      List.getElem?_eq_none (by simp [CyclicWalk.length_cyclicWalk (Nat.mod_lt _ hpos)]; omega)]

omit [DecidableEq α] in
lemma filter_visited_eq_walk (isUp : Host α → Bool) (l : List (Host α)) (index : Nat) :
    (visited (fun j => l[j % l.length]?) index l.length).filter isUp = walk isUp l index := by
  rw [visited_mod_eq_cyclicWalk, walk]

end QueryPlan

/-! ### `DCAwareQueryPlan` -/

/-- `is_dc_local`: the consistencies `LOCAL_ONE` and `LOCAL_QUORUM`. -/
def isDcLocal (cl : Nat) : Bool := cl = 0x000A || cl = 0x0006

/-- `get_next_host(hosts, index)`: `hosts[index % hosts.size()]`. -/
def getNextHost (hosts : List (Host α)) (index : Nat) : Option (Host α) :=
  hosts[index % hosts.length]?

/-- `get_next_host_bounded(hosts, index, bound)`: `hosts[index % min(hosts.size(), bound)]`. -/
def getNextHostBounded (hosts : List (Host α)) (index bound : Nat) : Option (Host α) :=
  hosts[index % min hosts.length bound]?

/-- `KeySet::insert` of a `std::set<std::string>`, kept in increasing order. -/
def keySetInsert (set : List String) (dc : String) : List String :=
  if dc ∈ set then set else set.orderedInsert (· ≤ ·) dc

namespace DCAwarePolicy

/-- `PerDCHostMap::get_hosts`: the hosts of a data center, none for one it does not know. -/
def getHosts (p : DCAwarePolicy α) (dc : String) : List (Host α) :=
  (p.perRemoteDcLiveHosts.lookup dc).getD []

/-- `PerDCHostMap::copy_dcs`: the names of the remote data centers, inserted into a set. -/
def copyDcs (p : DCAwarePolicy α) : List String :=
  (p.perRemoteDcLiveHosts.map Prod.fst).foldl keySetInsert []

end DCAwarePolicy

/-- `DCAwareQueryPlan`: `hosts_`, `local_remaining_`, `remote_remaining_`, `index_`, and
`remote_dcs_`, unset until the local hosts are used up. The plan reads the policy, its
`skip_remote_dcs_for_local_cl_` and its consistency `cl_` through the functions below. -/
structure DCAwareQueryPlan (α : Type) where
  hosts : List (Host α)
  localRemaining : Nat
  remoteRemaining : Nat
  index : Nat
  remoteDcs : Option (List String)

namespace DCAwareQueryPlan

/-- `new_query_plan`: a plan over the local hosts from the start index. -/
def new (p : DCAwarePolicy α) (startIndex : Nat) : DCAwareQueryPlan α :=
  ⟨p.localDcLiveHosts, p.localDcLiveHosts.length, 0, startIndex, none⟩

section

variable (p : DCAwarePolicy α) (isUp : Host α → Bool)

/-- The `while (true)` loop of `compute_next`: the steps left in the current data center, then,
when none of them finds a host, the next data center of `dcs`, taken out of the set as it is
started. -/
def nextRemote (hosts : List (Host α)) (remaining index : Nat) :
    List String → Option (Host α) × DCAwareQueryPlan α
  | [] =>
    match QueryPlan.nextUp isUp (getNextHostBounded hosts · p.usedHostsPerRemoteDc) remaining
        index with
    | (some host, remaining, index) => (some host, ⟨hosts, 0, remaining, index, some []⟩)
    | (none, _, index) => (none, ⟨hosts, 0, 0, index, some []⟩)
  | dc :: dcs =>
    match QueryPlan.nextUp isUp (getNextHostBounded hosts · p.usedHostsPerRemoteDc) remaining
        index with
    | (some host, remaining, index) =>
      (some host, ⟨hosts, 0, remaining, index, some (dc :: dcs)⟩)
    | (none, _, index) =>
      nextRemote (p.getHosts dc) (min (p.getHosts dc).length p.usedHostsPerRemoteDc) index dcs

/-- `DCAwareQueryPlan::compute_next` -/
def computeNext (skipRemoteDcsForLocalCl : Bool) (cl : Nat) (q : DCAwareQueryPlan α) :
    Option (Host α) × DCAwareQueryPlan α :=
  match QueryPlan.nextUp isUp (getNextHost q.hosts) q.localRemaining q.index with
  | (some host, remaining, index) =>
    (some host, { q with localRemaining := remaining, index := index })
  | (none, _, index) =>
    if skipRemoteDcsForLocalCl ∧ isDcLocal cl then
      (none, { q with localRemaining := 0, index := index })
    else nextRemote p isUp q.hosts q.remoteRemaining index (q.remoteDcs.getD p.copyDcs)

/-- The hosts a plan yields, `compute_next` called until it returns none or the fuel runs out. -/
def hostsAux (skipRemoteDcsForLocalCl : Bool) (cl : Nat) :
    Nat → DCAwareQueryPlan α → List (Host α)
  | 0, _ => []
  | fuel + 1, q =>
    match computeNext p isUp skipRemoteDcsForLocalCl cl q with
    | (some host, q) => host :: hostsAux skipRemoteDcsForLocalCl cl fuel q
    | (none, _) => []

end

end DCAwareQueryPlan

/-! ### The remote data centers -/

lemma mem_foldl_keySetInsert (keys set : List String) (x : String) :
    x ∈ keys.foldl keySetInsert set ↔ x ∈ set ∨ x ∈ keys := by
  induction keys generalizing set with
  | nil => simp
  | cons dc keys ih =>
    rw [List.foldl_cons, ih]
    unfold keySetInsert
    split_ifs with hdc
    · -- a name already in the set is not inserted again
      simp only [List.mem_cons]
      constructor
      · tauto
      · rintro (h | rfl | h)
        · exact .inl h
        · exact .inl hdc
        · exact .inr h
    · simp only [List.mem_orderedInsert, List.mem_cons]
      tauto

lemma nodup_foldl_keySetInsert (keys : List String) {set : List String} (hset : set.Nodup) :
    (keys.foldl keySetInsert set).Nodup := by
  induction keys generalizing set with
  | nil => exact hset
  | cons dc keys ih =>
    apply ih
    unfold keySetInsert
    split_ifs with hdc
    · exact hset
    · exact (List.perm_orderedInsert _ dc set).nodup_iff.mpr (List.nodup_cons.mpr ⟨hdc, hset⟩)

namespace DCAwarePolicy

/-- The hosts the policy lists, local and remote. -/
def knownHosts (p : DCAwarePolicy α) : List (Host α) :=
  p.localDcLiveHosts ++ p.perRemoteDcLiveHosts.flatMap Prod.snd

/-- How many hosts the policy lists. -/
def hostCount (p : DCAwarePolicy α) : Nat :=
  p.localDcLiveHosts.length + (p.perRemoteDcLiveHosts.map fun e => e.2.length).sum

omit [DecidableEq α] in
lemma mem_copyDcs (p : DCAwarePolicy α) (dc : String) :
    dc ∈ p.copyDcs ↔ dc ∈ p.perRemoteDcLiveHosts.map Prod.fst := by
  simp [copyDcs, mem_foldl_keySetInsert]

omit [DecidableEq α] in
lemma nodup_copyDcs (p : DCAwarePolicy α) : p.copyDcs.Nodup :=
  nodup_foldl_keySetInsert _ List.nodup_nil

omit [DecidableEq α] in
/-- With one entry per data center, the set of names holds each name of the map once. -/
lemma copyDcs_perm {p : DCAwarePolicy α} (hkeys : (p.perRemoteDcLiveHosts.map Prod.fst).Nodup) :
    p.copyDcs.Perm (p.perRemoteDcLiveHosts.map Prod.fst) :=
  (List.perm_ext_iff_of_nodup (nodup_copyDcs p) hkeys).mpr (mem_copyDcs p)

omit [DecidableEq α] in
/-- With one entry per data center, `get_hosts` finds each entry's own list. -/
lemma getHosts_of_mem {p : DCAwarePolicy α} (hkeys : (p.perRemoteDcLiveHosts.map Prod.fst).Nodup)
    {e : String × List (Host α)} (he : e ∈ p.perRemoteDcLiveHosts) : p.getHosts e.1 = e.2 := by
  unfold getHosts
  generalize p.perRemoteDcLiveHosts = m at hkeys he
  induction m with
  | nil => simp at he
  | cons e' m ih =>
    rw [List.map_cons, List.nodup_cons] at hkeys
    obtain ⟨hnot, hkeys'⟩ := hkeys
    rcases List.mem_cons.mp he with rfl | he'
    · simp [List.lookup]
    · have hne : e.1 ≠ e'.1 := fun h => hnot (h ▸ List.mem_map_of_mem he')
      have hne : (e.1 == e'.1) = false := by simpa using hne
      simp [List.lookup, hne, ih hkeys' he']

omit [DecidableEq α] in
lemma sublist_knownHosts_of_mem {p : DCAwarePolicy α} {e : String × List (Host α)}
    (he : e ∈ p.perRemoteDcLiveHosts) : e.2.Sublist p.knownHosts := by
  rw [knownHosts, List.flatMap_def]
  exact (List.sublist_flatten_of_mem (List.mem_map_of_mem he)).trans (List.sublist_append_right _ _)

omit [DecidableEq α] in
lemma mem_localQueryPlan {p : DCAwarePolicy α} {isUp : Host α → Bool} {startIndex : Nat}
    {h : Host α} :
    h ∈ p.localQueryPlan isUp startIndex ↔ h ∈ p.localDcLiveHosts ∧ isUp h := by
  simp [localQueryPlan, QueryPlan.walk_eq_filter_rotate]

omit [DecidableEq α] in
/-- With one entry per data center, the hosts of the data centers taken by name are the hosts of
the entries. -/
lemma flatMap_getHosts {p : DCAwarePolicy α}
    (hkeys : (p.perRemoteDcLiveHosts.map Prod.fst).Nodup) :
    (p.perRemoteDcLiveHosts.map Prod.fst).flatMap p.getHosts =
      p.perRemoteDcLiveHosts.flatMap Prod.snd := by
  rw [List.flatMap_map]
  exact List.flatMap_congr fun e he => getHosts_of_mem hkeys he

omit [DecidableEq α] in
lemma nodup_address_of_subperm {l₁ l₂ : List (Host α)} (h : l₁.Subperm l₂)
    (hn : (l₂.map (·.address)).Nodup) : (l₁.map (·.address)).Nodup := by
  obtain ⟨l, hperm, hsub⟩ := h
  exact (hperm.map _).nodup_iff.mp (hn.sublist (hsub.map _))

/-- The lists of a policy agree with the data centers of their hosts: a local host is of the
local data center, or none is set; a remote list holds the hosts of the data center it is filed
under, which is not the local one, once one is set; each data center has one list; and no
address is listed twice. -/
structure ListedByDc (p : DCAwarePolicy α) : Prop where
  local_dc : ∀ h ∈ p.localDcLiveHosts, p.localDc = "" ∨ h.dc = p.localDc
  remote_dc : ∀ e ∈ p.perRemoteDcLiveHosts,
    p.localDc ≠ "" ∧ e.1 ≠ p.localDc ∧ ∀ h ∈ e.2, h.dc = e.1
  keys_nodup : (p.perRemoteDcLiveHosts.map Prod.fst).Nodup
  addresses_nodup : (p.knownHosts.map (·.address)).Nodup

lemma ListedByDc.distance_of_local {p : DCAwarePolicy α} (hp : p.ListedByDc) {h : Host α}
    (hh : h ∈ p.localDcLiveHosts) : p.distance h = .local := by
  rw [distance, if_pos (hp.local_dc h hh)]

/-- A remote host is at distance `REMOTE` when it is among the first hosts of its list, and
`IGNORE` otherwise. -/
lemma ListedByDc.distance_of_remote {p : DCAwarePolicy α} (hp : p.ListedByDc)
    {e : String × List (Host α)} (he : e ∈ p.perRemoteDcLiveHosts) {h : Host α}
    (hh : h ∈ e.2) :
    p.distance h = if h ∈ e.2.take p.usedHostsPerRemoteDc then .remote else .ignore := by
  obtain ⟨hlocalDc, hne, hdc⟩ := hp.remote_dc e he
  have hnotLocal : ¬(p.localDc = "" ∨ h.dc = p.localDc) := by
    rintro (h0 | h1)
    · exact hlocalDc h0
    · exact hne ((hdc h hh).symm.trans h1)
  -- addresses are unique within the list, so the address test finds the host itself
  have hnodup : (e.2.map (·.address)).Nodup :=
    hp.addresses_nodup.sublist ((sublist_knownHosts_of_mem he).map _)
  have hany : ((e.2.take p.usedHostsPerRemoteDc).any (·.address = h.address)) =
      decide (h ∈ e.2.take p.usedHostsPerRemoteDc) := by
    rw [Bool.eq_iff_iff, List.any_eq_true, decide_eq_true_iff]
    constructor
    · rintro ⟨h', hh', haddr⟩
      have hsame := List.inj_on_of_nodup_map hnodup (List.mem_of_mem_take hh') hh
        (of_decide_eq_true haddr)
      exact hsame ▸ hh'
    · intro hmem
      exact ⟨h, hmem, decide_eq_true rfl⟩
  have hhosts : (p.perRemoteDcLiveHosts.lookup h.dc).getD [] = e.2 := by
    rw [hdc h hh]
    exact getHosts_of_mem hp.keys_nodup he
  rw [distance, if_neg hnotLocal, hhosts, hany]
  by_cases hmem : h ∈ e.2.take p.usedHostsPerRemoteDc <;> simp [hmem]

end DCAwarePolicy

/-! ### What a plan yields -/

namespace DCAwareQueryPlan

section

variable (p : DCAwarePolicy α) (isUp : Host α → Bool)

/-- The hosts of the remote data centers a plan should yield from `index` on: for each in turn,
a lap over its first `used_hosts_per_remote_dc_` hosts, with those that are down left out. -/
def remoteWalk : List String → Nat → List (Host α)
  | [], _ => []
  | dc :: dcs, index =>
    let hosts := (p.getHosts dc).take p.usedHostsPerRemoteDc
    QueryPlan.walk isUp hosts index ++ remoteWalk dcs (index + hosts.length)

/-- What the remote loop has still to yield: the steps left in the current data center, then the
data centers left. -/
def remoteRest (hosts : List (Host α)) (remaining index : Nat) (dcs : List String) :
    List (Host α) :=
  (QueryPlan.visited (getNextHostBounded hosts · p.usedHostsPerRemoteDc) index remaining).filter
    isUp ++ remoteWalk p isUp dcs (index + remaining)

/-- How many steps the remote loop has left. -/
def remoteSize (remaining : Nat) (dcs : List String) : Nat :=
  remaining + (dcs.map fun dc => min (p.getHosts dc).length p.usedHostsPerRemoteDc).sum

omit [DecidableEq α] in
/-- A new data center's steps of `get_next_host_bounded` are a lap over its first hosts. -/
lemma filter_visited_bounded (hosts : List (Host α)) (index : Nat) :
    (QueryPlan.visited (getNextHostBounded hosts · p.usedHostsPerRemoteDc) index
        (min hosts.length p.usedHostsPerRemoteDc)).filter isUp =
      QueryPlan.walk isUp (hosts.take p.usedHostsPerRemoteDc) index := by
  have hlen : (hosts.take p.usedHostsPerRemoteDc).length =
      min hosts.length p.usedHostsPerRemoteDc := by
    simp [Nat.min_comm]
  rcases Nat.eq_zero_or_pos (min hosts.length p.usedHostsPerRemoteDc) with h0 | hpos
  · -- no step, and nothing to walk
    have hnil : hosts.take p.usedHostsPerRemoteDc = [] := List.length_eq_zero_iff.mp (hlen.trans h0)
    rw [h0, hnil]
    rfl
  have hget : (getNextHostBounded hosts · p.usedHostsPerRemoteDc) =
      fun j =>
        (hosts.take p.usedHostsPerRemoteDc)[j % (hosts.take p.usedHostsPerRemoteDc).length]? := by
    funext j
    rw [hlen, getNextHostBounded, List.getElem?_take_of_lt (by have := Nat.mod_lt j hpos; omega)]
  rw [hget, ← hlen, QueryPlan.filter_visited_eq_walk]

omit [DecidableEq α] in
/-- What one call of the remote loop does: it yields the first host of what it has left, or
nothing when nothing is left, and stops in the remote phase with fewer steps to go. -/
theorem nextRemote_spec (dcs : List String) (hosts : List (Host α)) (remaining index : Nat) :
    let r := nextRemote p isUp hosts remaining index dcs
    ∃ dcs', r.2.remoteDcs = some dcs' ∧ r.2.localRemaining = 0 ∧
      remoteRest p isUp hosts remaining index dcs =
        r.1.toList ++ remoteRest p isUp r.2.hosts r.2.remoteRemaining r.2.index dcs' ∧
      (r.1 = none → remoteRest p isUp r.2.hosts r.2.remoteRemaining r.2.index dcs' = []) ∧
      (r.1.isSome → remoteSize p r.2.remoteRemaining dcs' < remoteSize p remaining dcs) := by
  induction dcs generalizing hosts remaining index with
  | nil =>
    obtain ⟨hsum, hlt, hnone, hfilter⟩ := QueryPlan.nextUp_spec isUp
      (getNextHostBounded hosts · p.usedHostsPerRemoteDc) remaining index
    rcases hr : QueryPlan.nextUp isUp (getNextHostBounded hosts · p.usedHostsPerRemoteDc)
      remaining index with ⟨_ | host, remaining', index'⟩ <;>
      rw [hr] at hsum hlt hnone hfilter <;> simp only [nextRemote] <;> rw [hr] <;>
      dsimp only at hsum hlt hnone hfilter ⊢
    · -- nothing is up in the last data center: the plan is over
      have h0 : remaining' = 0 := hnone rfl
      subst h0
      refine ⟨[], rfl, rfl, ?_, fun _ => ?_, by simp⟩
      · simp [remoteRest, remoteWalk, hfilter]
      · simp [remoteRest, remoteWalk, QueryPlan.visited]
    · refine ⟨[], rfl, rfl, ?_, by simp, fun _ => ?_⟩
      · simp [remoteRest, remoteWalk, hfilter]
      · have := hlt rfl
        simp [remoteSize]
        omega
  | cons dc dcs ih =>
    obtain ⟨hsum, hlt, hnone, hfilter⟩ := QueryPlan.nextUp_spec isUp
      (getNextHostBounded hosts · p.usedHostsPerRemoteDc) remaining index
    rcases hr : QueryPlan.nextUp isUp (getNextHostBounded hosts · p.usedHostsPerRemoteDc)
      remaining index with ⟨_ | host, remaining', index'⟩ <;>
      rw [hr] at hsum hlt hnone hfilter <;> simp only [nextRemote] <;> rw [hr] <;>
      dsimp only at hsum hlt hnone hfilter ⊢
    · -- nothing is up in the current data center: the loop starts the next one
      have h0 : remaining' = 0 := hnone rfl
      subst h0
      obtain ⟨dcs', hdcs, hlocal, hrest, hnil, hsize⟩ :=
        ih (p.getHosts dc) (min (p.getHosts dc).length p.usedHostsPerRemoteDc) index'
      refine ⟨dcs', hdcs, hlocal, ?_, hnil, fun h => ?_⟩
      · have hindex : index' = index + remaining := by omega
        rw [← hrest]
        simp only [remoteRest, hfilter, remoteWalk, filter_visited_bounded]
        simp [QueryPlan.visited, hindex, Nat.min_comm]
      · have := hsize h
        simp only [remoteSize, List.map_cons, List.sum_cons] at this ⊢
        omega
    · refine ⟨dc :: dcs, rfl, rfl, ?_, by simp, fun _ => ?_⟩
      · simp [remoteRest, hfilter, hsum]
      · have := hlt rfl
        simp only [remoteSize]
        omega

variable (skipRemoteDcsForLocalCl : Bool) (cl : Nat)

/-- What a plan has still to yield: the local steps left, then, unless the consistency keeps the
plan local, the rest of the remote loop from where the local steps end. -/
def pending (q : DCAwareQueryPlan α) : List (Host α) :=
  (QueryPlan.visited (getNextHost q.hosts) q.index q.localRemaining).filter isUp ++
    if skipRemoteDcsForLocalCl ∧ isDcLocal cl then []
    else remoteRest p isUp q.hosts q.remoteRemaining (q.index + q.localRemaining)
      (q.remoteDcs.getD p.copyDcs)

/-- How many steps a plan has left. -/
def measure (q : DCAwareQueryPlan α) : Nat :=
  q.localRemaining + remoteSize p q.remoteRemaining (q.remoteDcs.getD p.copyDcs)

omit [DecidableEq α] in
/-- A call that yields a host yields the first host the plan has left, and leaves fewer steps. -/
theorem computeNext_some {q q' : DCAwareQueryPlan α} {host : Host α}
    (h : computeNext p isUp skipRemoteDcsForLocalCl cl q = (some host, q')) :
    pending p isUp skipRemoteDcsForLocalCl cl q =
        host :: pending p isUp skipRemoteDcsForLocalCl cl q' ∧
      measure p q' < measure p q := by
  obtain ⟨hsum, hlt, hnone, hfilter⟩ := QueryPlan.nextUp_spec isUp (getNextHost q.hosts)
    q.localRemaining q.index
  unfold computeNext at h
  rcases hr : QueryPlan.nextUp isUp (getNextHost q.hosts) q.localRemaining q.index with
    ⟨_ | host', remaining', index'⟩ <;> rw [hr] at h hsum hlt hnone hfilter <;>
    dsimp only at h hsum hlt hnone hfilter
  · -- the local hosts are used up: the host comes from the remote loop
    have h0 : remaining' = 0 := hnone rfl
    subst h0
    split_ifs at h with hskip
    · cases h
    obtain ⟨dcs', hdcs, hlocal, hrest, -, hsize⟩ :=
      nextRemote_spec p isUp (q.remoteDcs.getD p.copyDcs) q.hosts q.remoteRemaining index'
    rw [h] at hdcs hlocal hrest hsize
    dsimp only at hdcs hlocal hrest hsize
    have hindex : index' = q.index + q.localRemaining := by omega
    refine ⟨?_, ?_⟩
    · simp only [pending, hfilter, if_neg hskip, hlocal, hdcs, Option.getD_some]
      rw [← hindex, hrest]
      simp [QueryPlan.visited]
    · have := hsize rfl
      simp only [measure, hlocal, hdcs, Option.getD_some]
      omega
  · -- a local host is up
    simp only [Prod.mk.injEq, Option.some.injEq] at h
    obtain ⟨rfl, rfl⟩ := h
    have := hlt rfl
    refine ⟨?_, ?_⟩
    · simp only [pending, hfilter]
      simp [hsum]
    · simp only [measure]
      omega

omit [DecidableEq α] in
/-- A call that yields nothing leaves nothing to yield. -/
theorem computeNext_none {q q' : DCAwareQueryPlan α}
    (h : computeNext p isUp skipRemoteDcsForLocalCl cl q = (none, q')) :
    pending p isUp skipRemoteDcsForLocalCl cl q = [] := by
  obtain ⟨hsum, -, hnone, hfilter⟩ := QueryPlan.nextUp_spec isUp (getNextHost q.hosts)
    q.localRemaining q.index
  unfold computeNext at h
  rcases hr : QueryPlan.nextUp isUp (getNextHost q.hosts) q.localRemaining q.index with
    ⟨_ | host', remaining', index'⟩ <;> rw [hr] at h hsum hnone hfilter <;>
    dsimp only at h hsum hnone hfilter
  · have h0 : remaining' = 0 := hnone rfl
    subst h0
    have hlocal : (QueryPlan.visited (getNextHost q.hosts) q.index q.localRemaining).filter isUp =
        [] := by simpa [QueryPlan.visited] using hfilter
    have hindex : index' = q.index + q.localRemaining := by omega
    rw [pending, hlocal, List.nil_append]
    split_ifs at h ⊢ with hskip
    · rfl
    · -- the remote loop found nothing either
      obtain ⟨dcs', -, -, hrest, hnil, -⟩ :=
        nextRemote_spec p isUp (q.remoteDcs.getD p.copyDcs) q.hosts q.remoteRemaining index'
      rw [h] at hrest hnil
      dsimp only at hrest hnil
      rw [← hindex, hrest, hnil rfl]
      rfl
  · cases h

omit [DecidableEq α] in
/-- Called with more fuel than it has steps left, a plan yields all it has left. -/
theorem hostsAux_eq_pending {fuel : Nat} {q : DCAwareQueryPlan α} (hfuel : measure p q < fuel) :
    hostsAux p isUp skipRemoteDcsForLocalCl cl fuel q =
      pending p isUp skipRemoteDcsForLocalCl cl q := by
  induction fuel generalizing q with
  | zero => omega
  | succ fuel ih =>
    rw [hostsAux]
    rcases h : computeNext p isUp skipRemoteDcsForLocalCl cl q with ⟨_ | host, q'⟩
    · exact (computeNext_none p isUp skipRemoteDcsForLocalCl cl h).symm
    · obtain ⟨hpending, hmeasure⟩ := computeNext_some p isUp skipRemoteDcsForLocalCl cl h
      dsimp only
      rw [hpending, ih (by omega)]

omit [DecidableEq α] in
lemma pending_new (startIndex : Nat) :
    pending p isUp skipRemoteDcsForLocalCl cl (new p startIndex) =
      p.localQueryPlan isUp startIndex ++
        if skipRemoteDcsForLocalCl ∧ isDcLocal cl then []
        else remoteWalk p isUp p.copyDcs (startIndex + p.localDcLiveHosts.length) := by
  have hlocal : getNextHost p.localDcLiveHosts =
      fun j => p.localDcLiveHosts[j % p.localDcLiveHosts.length]? := rfl
  simp only [pending, new, Option.getD_none, hlocal, QueryPlan.filter_visited_eq_walk]
  simp [remoteRest, QueryPlan.visited, DCAwarePolicy.localQueryPlan]

omit [DecidableEq α] in
/-- A new plan has no more steps than the policy has hosts. -/
lemma measure_new_le
    (hkeys : (p.perRemoteDcLiveHosts.map Prod.fst).Nodup) (startIndex : Nat) :
    measure p (new p startIndex) ≤ p.hostCount := by
  have hperm := ((DCAwarePolicy.copyDcs_perm hkeys).map
    fun dc => min (p.getHosts dc).length p.usedHostsPerRemoteDc).sum_eq
  have hle : ((p.perRemoteDcLiveHosts.map Prod.fst).map
        fun dc => min (p.getHosts dc).length p.usedHostsPerRemoteDc).sum ≤
      (p.perRemoteDcLiveHosts.map fun e => e.2.length).sum := by
    rw [List.map_map]
    apply List.sum_le_sum
    intro e he
    simp only [Function.comp, DCAwarePolicy.getHosts_of_mem hkeys he]
    exact Nat.min_le_left _ _
  simp only [measure, new, remoteSize, Option.getD_none, DCAwarePolicy.hostCount]
  omega

omit [DecidableEq α] in
/-- `DCAwareQueryPlan::compute_next`, called until it returns none, yields the local plan and then,
unless the consistency keeps the plan local, a lap over the first
`used_hosts_per_remote_dc_` hosts of each remote data center, in the order of their names;
the index runs on from one to the next. -/
theorem hostsAux_new
    (hkeys : (p.perRemoteDcLiveHosts.map Prod.fst).Nodup) (startIndex : Nat) {fuel : Nat}
    (hfuel : p.hostCount < fuel) :
    hostsAux p isUp skipRemoteDcsForLocalCl cl fuel (new p startIndex) =
      p.localQueryPlan isUp startIndex ++
        if skipRemoteDcsForLocalCl ∧ isDcLocal cl then []
        else remoteWalk p isUp p.copyDcs (startIndex + p.localDcLiveHosts.length) := by
  rw [hostsAux_eq_pending p isUp skipRemoteDcsForLocalCl cl
    (lt_of_le_of_lt (measure_new_le p hkeys startIndex) hfuel), pending_new]

omit [DecidableEq α] in
lemma mem_remoteWalk {dcs : List String} {index : Nat} {h : Host α} :
    h ∈ remoteWalk p isUp dcs index ↔
      ∃ dc ∈ dcs, h ∈ (p.getHosts dc).take p.usedHostsPerRemoteDc ∧ isUp h := by
  induction dcs generalizing index with
  | nil => simp [remoteWalk]
  | cons dc dcs ih =>
    simp [remoteWalk, ih, QueryPlan.walk_eq_filter_rotate]

omit [DecidableEq α] in
lemma remoteWalk_subperm (dcs : List String) (index : Nat) :
    (remoteWalk p isUp dcs index).Subperm (dcs.flatMap p.getHosts) := by
  induction dcs generalizing index with
  | nil => exact List.nil_subperm
  | cons dc dcs ih =>
    rw [remoteWalk, List.flatMap_cons, QueryPlan.walk_eq_filter_rotate]
    -- a lap over the first hosts of a data center is a sub-list of a rotation of its hosts
    have hwalk : ((((p.getHosts dc).take p.usedHostsPerRemoteDc).rotate index).filter isUp).Subperm
        (p.getHosts dc) :=
      List.filter_sublist.subperm.trans ((List.rotate_perm _ _).subperm.trans
        (List.take_sublist _ _).subperm)
    exact List.Subperm.append hwalk (ih _)

/-- Over a policy whose lists agree with the data centers of their hosts, a plan yields every up
host at distance `LOCAL` once, then, unless the consistency keeps the plan local, every up host
at distance `REMOTE` once, and no other host. -/
theorem hostsAux_new_distance (hp : p.ListedByDc) (startIndex : Nat)
    {fuel : Nat} (hfuel : p.hostCount < fuel) :
    ∃ localHosts remoteHosts,
      hostsAux p isUp skipRemoteDcsForLocalCl cl fuel (new p startIndex) =
        localHosts ++ remoteHosts ∧
      ((localHosts ++ remoteHosts).map (·.address)).Nodup ∧
      (∀ h, h ∈ localHosts ↔ h ∈ p.knownHosts ∧ isUp h ∧ p.distance h = .local) ∧
      (∀ h, h ∈ remoteHosts ↔ ¬(skipRemoteDcsForLocalCl ∧ isDcLocal cl) ∧
        h ∈ p.knownHosts ∧ isUp h ∧ p.distance h = .remote) := by
  refine ⟨_, _, hostsAux_new p isUp skipRemoteDcsForLocalCl cl hp.keys_nodup startIndex hfuel,
    ?_, ?_, ?_⟩
  · -- both phases walk sub-lists of the policy's lists
    have hlocal : (p.localQueryPlan isUp startIndex).Subperm p.localDcLiveHosts := by
      rw [DCAwarePolicy.localQueryPlan, QueryPlan.walk_eq_filter_rotate]
      exact List.filter_sublist.subperm.trans (List.rotate_perm _ _).subperm
    have hremote : (remoteWalk p isUp p.copyDcs (startIndex + p.localDcLiveHosts.length)).Subperm
        (p.perRemoteDcLiveHosts.flatMap Prod.snd) := by
      rw [← DCAwarePolicy.flatMap_getHosts hp.keys_nodup]
      exact (remoteWalk_subperm p isUp _ _).trans
        ((DCAwarePolicy.copyDcs_perm hp.keys_nodup).flatMap_right _).subperm
    apply DCAwarePolicy.nodup_address_of_subperm _ hp.addresses_nodup
    split_ifs
    · rw [List.append_nil]
      exact hlocal.trans (List.sublist_append_left _ _).subperm
    · exact List.Subperm.append hlocal hremote
  · intro h
    rw [DCAwarePolicy.mem_localQueryPlan]
    constructor
    · rintro ⟨hh, hup⟩
      exact ⟨List.mem_append_left _ hh, hup, hp.distance_of_local hh⟩
    · rintro ⟨hknown, hup, hdist⟩
      refine ⟨?_, hup⟩
      rcases List.mem_append.mp hknown with hl | hr
      · exact hl
      · -- a remote host is never at distance `LOCAL`
        obtain ⟨e, he, hh⟩ := List.mem_flatMap.mp hr
        rw [hp.distance_of_remote he hh] at hdist
        split_ifs at hdist
  · intro h
    split_ifs with hskip
    · simp [hskip]
    · rw [mem_remoteWalk]
      constructor
      · rintro ⟨dc, hdc, hh, hup⟩
        obtain ⟨e, he, rfl⟩ := List.mem_map.mp ((DCAwarePolicy.mem_copyDcs p dc).mp hdc)
        rw [DCAwarePolicy.getHosts_of_mem hp.keys_nodup he] at hh
        have hmem := List.mem_of_mem_take hh
        exact ⟨hskip, (DCAwarePolicy.sublist_knownHosts_of_mem he).subset hmem, hup,
          by rw [hp.distance_of_remote he hmem, if_pos hh]⟩
      · rintro ⟨-, hknown, hup, hdist⟩
        rcases List.mem_append.mp hknown with hl | hr
        · rw [hp.distance_of_local hl] at hdist
          cases hdist
        · obtain ⟨e, he, hh⟩ := List.mem_flatMap.mp hr
          rw [hp.distance_of_remote he hh] at hdist
          split_ifs at hdist with htake
          refine ⟨e.1, (DCAwarePolicy.mem_copyDcs p e.1).mpr (List.mem_map_of_mem he), ?_, hup⟩
          rw [DCAwarePolicy.getHosts_of_mem hp.keys_nodup he]
          exact htake

/-- `DCAwarePolicy`, with no local data center set, is told `on_add` of a host whose data center
name is empty and then of a host of `dc1`. The first host joins the local list, and the second
names the local data center: a plan yields the first host, which `distance` ignores. -/
theorem hostsAux_emptyDcHost :
    let p : DCAwarePolicy Nat :=
      ((⟨"", 1, [], []⟩ : DCAwarePolicy Nat).onAdd ⟨1, "", "", 0, 0⟩).onAdd
        ⟨2, "", "dc1", 0, 0⟩
    hostsAux p (fun _ => true) false 1 3 (new p 0) =
        [⟨1, "", "", 0, 0⟩, ⟨2, "", "dc1", 0, 0⟩] ∧
      p.distance ⟨1, "", "", 0, 0⟩ = .ignore := by
  decide

end

end DCAwareQueryPlan

end CassandraDriver
