import CassandraDriver.Policy.DcAwarePlan

/-!
# The query plans of the chained policies

`TokenAwarePolicy`, `PartitionAwarePolicy` and `LatencyAwarePolicy` wrap the query plan of a child
policy. A token-aware plan first walks the replicas of the routing key once around from its
start index, taking those that are up and `LOCAL` to the child policy, then passes on the child
plan's hosts that are not `LOCAL` replicas (`TokenAwareQueryPlan.hostsAux_new`); it yields no
address twice (`TokenAwareQueryPlan.nodup_hostsAux_new`). A partition-aware plan does the same
over the followers of a tablet, after its leader, which it yields first when the leader is up,
whatever its distance (`PartitionAwareQueryPlan.hostsAux_new`). A leader that is up but not
`LOCAL` is then yielded again by the child loop, which passes on every replica that is not
`LOCAL`; with a `LOCAL` leader no address comes twice
(`PartitionAwareQueryPlan.nodup_hostsAux_new`). A latency-aware plan passes on the child plan's
hosts, holds back those whose latency is too high and yields them last; over any readings of
the latencies and the clock it yields the child plan's hosts once each, those held back after
the others, both in their order (`LatencyAwareQueryPlan.hostsAux_new`).

A child plan is the list of hosts it yields, and a host is the one object with its address.
-/

namespace CassandraDriver

variable {α : Type} [DecidableEq α]

namespace QueryPlan

/-- `contains(replicas, address)`: whether a replica has the address. -/
def contains (replicas : List (Host α)) (address : α) : Bool :=
  replicas.any (·.address = address)

/-- The `while ((host = child_plan_->compute_next()))` loop of the token-aware and partition-aware
plans: hosts are drawn from the child plan until one that `accept` takes. -/
def nextFromChild (accept : Host α → Bool) :
    List (Host α) → Option (Host α) × List (Host α)
  | [] => (none, [])
  | host :: child => if accept host then (some host, child) else nextFromChild accept child

omit [DecidableEq α] in
/-- What one call of the loop does: it returns the first host of the child plan that `accept`
takes and leaves the child plan after it, or drains the child plan. -/
theorem nextFromChild_spec (accept : Host α → Bool) (child : List (Host α)) :
    let r := nextFromChild accept child
    child.filter accept = r.1.toList ++ r.2.filter accept ∧ (r.1 = none → r.2 = []) ∧
      r.2.length ≤ child.length ∧ (r.1.isSome → r.2.length < child.length) := by
  induction child with
  | nil => simp [nextFromChild]
  | cons host child ih =>
    obtain ⟨hfilter, hnone, hle, hlt⟩ := ih
    by_cases hacc : accept host
    · simp [nextFromChild, hacc]
    · simp only [nextFromChild, hacc, List.filter_cons, if_false, Bool.false_eq_true,
        List.length_cons]
      exact ⟨hfilter, hnone, by omega, fun h => by have := hlt h; omega⟩

section

variable (isUp : Host α → Bool) (distance : Host α → HostDistance)

/-- The replicas a token-aware or partition-aware plan takes in its own loop: up, and `LOCAL` to
the child policy. -/
def upAndLocal (host : Host α) : Bool :=
  isUp host && distance host = .local

/-- The hosts of the child plan that such a plan passes on: those that are not a replica, or not
`LOCAL` to the child policy. -/
def notLocalReplica (replicas : List (Host α)) (host : Host α) : Bool :=
  !contains replicas host.address || distance host ≠ .local

/-- A `LOCAL` replica is never passed on under its own address by the child loop. -/
lemma address_ne_of_notLocalReplica {replicas : List (Host α)} {r c : Host α}
    (hr : r ∈ replicas) (hlocal : distance r = .local)
    (hpass : notLocalReplica distance replicas c = true)
    (hsame : r.address = c.address → r = c) : r.address ≠ c.address := by
  intro haddr
  obtain rfl := hsame haddr
  have hcontains : contains replicas r.address = true :=
    List.any_eq_true.mpr ⟨r, hr, decide_eq_true rfl⟩
  simp [notLocalReplica, hcontains, hlocal] at hpass

end

end QueryPlan

/-! ### `TokenAwareQueryPlan` -/

/-- `TokenAwareQueryPlan`: what `child_plan_` has left to yield, `replicas_`, `index_` and
`remaining_`. -/
structure TokenAwareQueryPlan (α : Type) where
  child : List (Host α)
  replicas : List (Host α)
  index : Nat
  remaining : Nat

namespace TokenAwareQueryPlan

/-- The plan `new_query_plan` makes over the replicas of the routing key. -/
def new (child replicas : List (Host α)) (startIndex : Nat) : TokenAwareQueryPlan α :=
  ⟨child, replicas, startIndex, replicas.length⟩

section

variable (isUp : Host α → Bool) (distance : Host α → HostDistance)

/-- `TokenAwareQueryPlan::compute_next`: `remaining_` steps over the replicas from `index_`,
then the child plan. -/
def computeNext (q : TokenAwareQueryPlan α) : Option (Host α) × TokenAwareQueryPlan α :=
  match QueryPlan.nextUp (QueryPlan.upAndLocal isUp distance) (getNextHost q.replicas)
      q.remaining q.index with
  | (some host, remaining, index) => (some host, { q with remaining := remaining, index := index })
  | (none, remaining, index) =>
    let r := QueryPlan.nextFromChild (QueryPlan.notLocalReplica distance q.replicas) q.child
    (r.1, { q with child := r.2, remaining := remaining, index := index })

/-- The hosts a plan yields, `compute_next` called until it returns none or the fuel runs out. -/
def hostsAux : Nat → TokenAwareQueryPlan α → List (Host α)
  | 0, _ => []
  | fuel + 1, q =>
    match computeNext isUp distance q with
    | (some host, q) => host :: hostsAux fuel q
    | (none, _) => []

/-- What a plan has still to yield: the replica steps left, then the child plan's hosts that are
not `LOCAL` replicas. -/
def pending (q : TokenAwareQueryPlan α) : List (Host α) :=
  (QueryPlan.visited (getNextHost q.replicas) q.index q.remaining).filter
      (QueryPlan.upAndLocal isUp distance) ++
    q.child.filter (QueryPlan.notLocalReplica distance q.replicas)

/-- How many steps a plan has left. -/
def measure (q : TokenAwareQueryPlan α) : Nat := q.remaining + q.child.length

theorem computeNext_some {q q' : TokenAwareQueryPlan α} {host : Host α}
    (h : computeNext isUp distance q = (some host, q')) :
    pending isUp distance q = host :: pending isUp distance q' ∧ measure q' < measure q := by
  obtain ⟨hsum, hlt, hnone, hfilter⟩ :=
    QueryPlan.nextUp_spec (QueryPlan.upAndLocal isUp distance) (getNextHost q.replicas)
      q.remaining q.index
  unfold computeNext at h
  rcases hr : QueryPlan.nextUp (QueryPlan.upAndLocal isUp distance) (getNextHost q.replicas)
    q.remaining q.index with ⟨_ | host', remaining', index'⟩ <;>
    rw [hr] at h hsum hlt hnone hfilter <;> dsimp only at h hsum hlt hnone hfilter
  · -- the replicas are used up: the host comes from the child plan
    have h0 : remaining' = 0 := hnone rfl
    subst h0
    obtain ⟨hchild, -, -, hshorter⟩ :=
      QueryPlan.nextFromChild_spec (QueryPlan.notLocalReplica distance q.replicas) q.child
    have hreplicas : (QueryPlan.visited (getNextHost q.replicas) q.index q.remaining).filter
        (QueryPlan.upAndLocal isUp distance) = [] := by
      simpa [QueryPlan.visited] using hfilter
    simp only [Prod.mk.injEq] at h
    obtain ⟨hhost, rfl⟩ := h
    rw [hhost] at hchild hshorter
    refine ⟨?_, ?_⟩
    · rw [pending, hreplicas, hchild, pending]
      simp [QueryPlan.visited]
    · have := hshorter rfl
      simp only [measure]
      omega
  · -- a replica is up and local
    simp only [Prod.mk.injEq, Option.some.injEq] at h
    obtain ⟨rfl, rfl⟩ := h
    have := hlt rfl
    refine ⟨?_, ?_⟩
    · simp [pending, hfilter]
    · simp only [measure]
      omega

theorem computeNext_none {q q' : TokenAwareQueryPlan α}
    (h : computeNext isUp distance q = (none, q')) : pending isUp distance q = [] := by
  obtain ⟨-, -, hnone, hfilter⟩ := QueryPlan.nextUp_spec (QueryPlan.upAndLocal isUp distance)
    (getNextHost q.replicas) q.remaining q.index
  unfold computeNext at h
  rcases hr : QueryPlan.nextUp (QueryPlan.upAndLocal isUp distance) (getNextHost q.replicas)
    q.remaining q.index with ⟨_ | host', remaining', index'⟩ <;>
    rw [hr] at h hnone hfilter <;> dsimp only at h hnone hfilter
  · have h0 : remaining' = 0 := hnone rfl
    subst h0
    obtain ⟨hchild, hdrained, -, -⟩ :=
      QueryPlan.nextFromChild_spec (QueryPlan.notLocalReplica distance q.replicas) q.child
    have hreplicas : (QueryPlan.visited (getNextHost q.replicas) q.index q.remaining).filter
        (QueryPlan.upAndLocal isUp distance) = [] := by
      simpa [QueryPlan.visited] using hfilter
    simp only [Prod.mk.injEq] at h
    rw [h.1] at hchild hdrained
    rw [pending, hreplicas, hchild, hdrained rfl]
    rfl
  · cases h

theorem hostsAux_eq_pending {fuel : Nat} {q : TokenAwareQueryPlan α} (hfuel : measure q < fuel) :
    hostsAux isUp distance fuel q = pending isUp distance q := by
  induction fuel generalizing q with
  | zero => omega
  | succ fuel ih =>
    rw [hostsAux]
    rcases h : computeNext isUp distance q with ⟨_ | host, q'⟩
    · exact (computeNext_none isUp distance h).symm
    · obtain ⟨hpending, hmeasure⟩ := computeNext_some isUp distance h
      dsimp only
      rw [hpending, ih (by omega)]

lemma pending_new (child replicas : List (Host α)) (startIndex : Nat) :
    pending isUp distance (new child replicas startIndex) =
      QueryPlan.walk (QueryPlan.upAndLocal isUp distance) replicas startIndex ++
        child.filter (QueryPlan.notLocalReplica distance replicas) := by
  have hget : getNextHost replicas = fun j => replicas[j % replicas.length]? := rfl
  rw [pending, new]
  dsimp only
  rw [hget, QueryPlan.filter_visited_eq_walk]

/-- `TokenAwareQueryPlan::compute_next`, called until it returns none, yields the replicas that
are up and `LOCAL`, once around from the start index, then the child plan's hosts that are not
`LOCAL` replicas. -/
theorem hostsAux_new (child replicas : List (Host α)) (startIndex : Nat) {fuel : Nat}
    (hfuel : replicas.length + child.length < fuel) :
    hostsAux isUp distance fuel (new child replicas startIndex) =
      QueryPlan.walk (QueryPlan.upAndLocal isUp distance) replicas startIndex ++
        child.filter (QueryPlan.notLocalReplica distance replicas) := by
  rw [hostsAux_eq_pending isUp distance hfuel, pending_new]

/-- A token-aware plan yields no address twice, when neither the replicas nor the child plan
list one twice and a host is the one object with its address. -/
theorem nodup_hostsAux_new {child replicas : List (Host α)}
    (hreplicas : (replicas.map (·.address)).Nodup) (hchild : (child.map (·.address)).Nodup)
    (hsame : ∀ r ∈ replicas, ∀ c ∈ child, r.address = c.address → r = c)
    (startIndex : Nat) {fuel : Nat} (hfuel : replicas.length + child.length < fuel) :
    ((hostsAux isUp distance fuel (new child replicas startIndex)).map (·.address)).Nodup := by
  rw [hostsAux_new isUp distance child replicas startIndex hfuel, List.map_append,
    List.nodup_append]
  refine ⟨QueryPlan.nodup_walk hreplicas _ startIndex,
    hchild.sublist (List.filter_sublist.map _), ?_⟩
  intro a ha b hb hab
  obtain ⟨r, hr, rfl⟩ := List.mem_map.mp ha
  obtain ⟨c, hc, rfl⟩ := List.mem_map.mp hb
  rw [QueryPlan.walk_eq_filter_rotate, List.mem_filter, List.mem_rotate] at hr
  obtain ⟨hcmem, hcpass⟩ := List.mem_filter.mp hc
  have hlocal : distance r = .local := by
    simp only [QueryPlan.upAndLocal, Bool.and_eq_true, decide_eq_true_eq] at hr
    exact hr.2.2
  exact QueryPlan.address_ne_of_notLocalReplica distance hr.1 hlocal hcpass
    (hsame r hr.1 c hcmem) hab

end

end TokenAwareQueryPlan

/-! ### `PartitionAwareQueryPlan` -/

/-- `PartitionAwareQueryPlan`: what `child_plan_` has left to yield, `use_leader_`, `replicas_`
(the leader first), `index_` and `remaining_`. -/
structure PartitionAwareQueryPlan (α : Type) where
  child : List (Host α)
  useLeader : Bool
  replicas : List (Host α)
  index : Nat
  remaining : Nat

namespace PartitionAwareQueryPlan

/-- The plan `new_query_plan` makes over the replicas of the tablet. `remaining_` is
`replicas->size() - 1`, which wraps round for an empty list, where no step reads it. -/
def new (child replicas : List (Host α)) (startIndex : Nat) : PartitionAwareQueryPlan α :=
  ⟨child, true, replicas, startIndex, replicas.length - 1⟩

/-- `(*replicas_)[1 + (index % (replicas_->size() - 1))]`: the followers, once around. -/
def getNextFollower (replicas : List (Host α)) (index : Nat) : Option (Host α) :=
  replicas[1 + index % (replicas.length - 1)]?

section

variable (isUp : Host α → Bool) (distance : Host α → HostDistance)

/-- The part of `compute_next` after the leader: `remaining_` steps over the followers when there
are any, then the child plan. -/
def nextAfterLeader (q : PartitionAwareQueryPlan α) :
    Option (Host α) × PartitionAwareQueryPlan α :=
  let followers := if 1 < q.replicas.length then
      QueryPlan.nextUp (QueryPlan.upAndLocal isUp distance) (getNextFollower q.replicas)
        q.remaining q.index
    else (none, q.remaining, q.index)
  match followers with
  | (some host, remaining, index) => (some host, { q with remaining := remaining, index := index })
  | (none, remaining, index) =>
    let r := QueryPlan.nextFromChild (QueryPlan.notLocalReplica distance q.replicas) q.child
    (r.1, { q with child := r.2, remaining := remaining, index := index })

/-- `PartitionAwareQueryPlan::compute_next`: the leader while `use_leader_` holds and it is up,
whatever its distance; then the rest. -/
def computeNext (q : PartitionAwareQueryPlan α) : Option (Host α) × PartitionAwareQueryPlan α :=
  match q.useLeader, q.replicas with
  | true, leader :: _ =>
    if isUp leader then (some leader, { q with useLeader := false })
    else nextAfterLeader isUp distance q
  | _, _ => nextAfterLeader isUp distance q

/-- The hosts a plan yields, `compute_next` called until it returns none or the fuel runs out. -/
def hostsAux : Nat → PartitionAwareQueryPlan α → List (Host α)
  | 0, _ => []
  | fuel + 1, q =>
    match computeNext isUp distance q with
    | (some host, q) => host :: hostsAux fuel q
    | (none, _) => []

/-- The leader, while the plan still looks at it and when it is up. -/
def leaderPart (q : PartitionAwareQueryPlan α) : List (Host α) :=
  if q.useLeader then (q.replicas.head?.filter isUp).toList else []

/-- What the steps after the leader have still to yield: the follower steps left, then the child
plan's hosts that are not `LOCAL` replicas. -/
def rest (q : PartitionAwareQueryPlan α) : List (Host α) :=
  (if 1 < q.replicas.length then
      (QueryPlan.visited (getNextFollower q.replicas) q.index q.remaining).filter
        (QueryPlan.upAndLocal isUp distance)
    else []) ++
    q.child.filter (QueryPlan.notLocalReplica distance q.replicas)

/-- How many steps the part after the leader has left. -/
def restSize (q : PartitionAwareQueryPlan α) : Nat :=
  (if 1 < q.replicas.length then q.remaining else 0) + q.child.length

/-- What a plan has still to yield. -/
def pending (q : PartitionAwareQueryPlan α) : List (Host α) :=
  leaderPart isUp q ++ rest isUp distance q

/-- How many steps a plan has left. -/
def measure (q : PartitionAwareQueryPlan α) : Nat :=
  (if q.useLeader ∧ q.replicas ≠ [] then 1 else 0) + restSize q

theorem nextAfterLeader_spec (q : PartitionAwareQueryPlan α) :
    let r := nextAfterLeader isUp distance q
    r.2.useLeader = q.useLeader ∧ r.2.replicas = q.replicas ∧
      rest isUp distance q = r.1.toList ++ rest isUp distance r.2 ∧
      (r.1 = none → rest isUp distance r.2 = []) ∧
      (r.1.isSome → restSize r.2 < restSize q) := by
  obtain ⟨hchild, hdrained, hle, hshorter⟩ :=
    QueryPlan.nextFromChild_spec (QueryPlan.notLocalReplica distance q.replicas) q.child
  unfold nextAfterLeader
  by_cases hlen : 1 < q.replicas.length
  · -- there are followers: the loop over them, then the child plan
    obtain ⟨hsum, hlt, hnone, hfilter⟩ := QueryPlan.nextUp_spec
      (QueryPlan.upAndLocal isUp distance) (getNextFollower q.replicas) q.remaining q.index
    rw [if_pos hlen]
    rcases hr : QueryPlan.nextUp (QueryPlan.upAndLocal isUp distance) (getNextFollower q.replicas)
      q.remaining q.index with ⟨_ | host, remaining', index'⟩ <;>
      rw [hr] at hsum hlt hnone hfilter <;> dsimp only at hsum hlt hnone hfilter ⊢
    · have h0 : remaining' = 0 := hnone rfl
      subst h0
      have hfollowers : (QueryPlan.visited (getNextFollower q.replicas) q.index q.remaining).filter
          (QueryPlan.upAndLocal isUp distance) = [] := by
        simpa [QueryPlan.visited] using hfilter
      refine ⟨rfl, rfl, ?_, fun h => ?_, fun h => ?_⟩
      · rw [rest, if_pos hlen, hfollowers, hchild]
        simp [rest, hlen, QueryPlan.visited]
      · simp [rest, hlen, hdrained h, QueryPlan.visited]
      · have := hshorter h
        simp only [restSize, if_pos hlen]
        omega
    · have := hlt rfl
      refine ⟨rfl, rfl, ?_, by simp, fun _ => ?_⟩
      · simp [rest, hlen, hfilter]
      · simp only [restSize, if_pos hlen]
        omega
  · -- a lone leader, or none: only the child plan
    rw [if_neg hlen]
    dsimp only
    refine ⟨rfl, rfl, ?_, fun h => ?_, fun h => ?_⟩
    · simp [rest, hlen, hchild]
    · simp [rest, hlen, hdrained h]
    · have := hshorter h
      simp only [restSize, if_neg hlen]
      omega

/-- With no leader to yield, a call goes on to the followers and the child plan. -/
lemma computeNext_of_leaderPart_nil {q : PartitionAwareQueryPlan α} (h : leaderPart isUp q = []) :
    computeNext isUp distance q = nextAfterLeader isUp distance q := by
  unfold computeNext
  split
  · rename_i leader _ huse hreplicas
    have hdown : isUp leader = false := by simpa [leaderPart, huse, hreplicas] using h
    rw [if_neg (by simp [hdown])]
  · rfl

lemma computeNext_of_leaderPart_cons {q : PartitionAwareQueryPlan α} {leader : Host α}
    {l : List (Host α)} (h : leaderPart isUp q = leader :: l) :
    computeNext isUp distance q = (some leader, { q with useLeader := false }) := by
  unfold leaderPart at h
  split_ifs at h with huse
  rcases hreplicas : q.replicas with _ | ⟨first, others⟩
  · simp [hreplicas] at h
  · rw [hreplicas] at h
    by_cases hup : isUp first
    · simp only [List.head?_cons, Option.filter_some, hup, if_true, Option.toList_some,
        List.cons.injEq] at h
      obtain ⟨rfl, -⟩ := h
      simp [computeNext, huse, hreplicas, hup]
    · have hdown : isUp first = false := by simpa using hup
      simp [Option.filter, hdown] at h

theorem computeNext_some {q q' : PartitionAwareQueryPlan α} {host : Host α}
    (h : computeNext isUp distance q = (some host, q')) :
    pending isUp distance q = host :: pending isUp distance q' ∧ measure q' < measure q := by
  rcases hleader : leaderPart isUp q with _ | ⟨leader, l⟩
  · -- the host comes from the followers or the child plan
    rw [computeNext_of_leaderPart_nil isUp distance hleader] at h
    obtain ⟨huse, hreplicas, hrest, -, hsize⟩ := nextAfterLeader_spec isUp distance q
    rw [h] at huse hreplicas hrest hsize
    dsimp only at huse hreplicas hrest hsize
    have hleader' : leaderPart isUp q' = [] := by
      rw [← hleader]
      simp only [leaderPart, huse, hreplicas]
    refine ⟨?_, ?_⟩
    · rw [pending, pending, hleader, hleader', hrest]
      rfl
    · have := hsize rfl
      simp only [measure, huse, hreplicas]
      omega
  · -- the leader is up and yielded
    rw [computeNext_of_leaderPart_cons isUp distance hleader] at h
    simp only [Prod.mk.injEq, Option.some.injEq] at h
    obtain ⟨rfl, rfl⟩ := h
    have huse : q.useLeader = true := by
      by_contra hne
      simp [leaderPart, hne] at hleader
    have hl : l = [] := by
      unfold leaderPart at hleader
      rw [if_pos huse] at hleader
      cases hhead : q.replicas.head?.filter isUp <;> simp_all
    subst hl
    refine ⟨?_, ?_⟩
    · rw [pending, pending, hleader]
      simp [leaderPart]
      rfl
    · have hne : q.replicas ≠ [] := by
        intro hnil
        simp [leaderPart, hnil] at hleader
      simp [measure, huse, hne, restSize]

theorem computeNext_none {q q' : PartitionAwareQueryPlan α}
    (h : computeNext isUp distance q = (none, q')) : pending isUp distance q = [] := by
  rcases hleader : leaderPart isUp q with _ | ⟨leader, l⟩
  · rw [computeNext_of_leaderPart_nil isUp distance hleader] at h
    obtain ⟨-, -, hrest, hnil, -⟩ := nextAfterLeader_spec isUp distance q
    rw [h] at hrest hnil
    dsimp only at hrest hnil
    rw [pending, hleader, hrest, hnil rfl]
    rfl
  · rw [computeNext_of_leaderPart_cons isUp distance hleader] at h
    cases h

theorem hostsAux_eq_pending {fuel : Nat} {q : PartitionAwareQueryPlan α}
    (hfuel : measure q < fuel) :
    hostsAux isUp distance fuel q = pending isUp distance q := by
  induction fuel generalizing q with
  | zero => omega
  | succ fuel ih =>
    rw [hostsAux]
    rcases h : computeNext isUp distance q with ⟨_ | host, q'⟩
    · exact (computeNext_none isUp distance h).symm
    · obtain ⟨hpending, hmeasure⟩ := computeNext_some isUp distance h
      dsimp only
      rw [hpending, ih (by omega)]

omit [DecidableEq α] in
/-- The followers are the replicas after the leader. -/
lemma getNextFollower_eq (replicas : List (Host α)) :
    getNextFollower replicas = fun j => replicas.tail[j % replicas.tail.length]? := by
  funext j
  cases replicas with
  | nil => rfl
  | cons leader followers =>
    rw [getNextFollower, List.length_cons, Nat.add_sub_cancel, Nat.add_comm, List.tail_cons,
      List.getElem?_cons_succ]

lemma pending_new (child replicas : List (Host α)) (startIndex : Nat) :
    pending isUp distance (new child replicas startIndex) =
      (replicas.head?.filter isUp).toList ++
        QueryPlan.walk (QueryPlan.upAndLocal isUp distance) replicas.tail startIndex ++
        child.filter (QueryPlan.notLocalReplica distance replicas) := by
  rw [pending, leaderPart, rest, new]
  dsimp only
  rw [if_pos rfl, List.append_assoc]
  congr 2
  split_ifs with hlen
  · have htail : replicas.length - 1 = replicas.tail.length := by simp
    rw [htail, getNextFollower_eq, QueryPlan.filter_visited_eq_walk]
  · -- a lone leader, or none: no followers
    have htail : replicas.tail = [] := by
      apply List.eq_nil_of_length_eq_zero
      simp only [List.length_tail]
      omega
    rw [htail]
    rfl

omit [DecidableEq α] in
lemma measure_new (child replicas : List (Host α)) (startIndex : Nat) :
    measure (new child replicas startIndex) = replicas.length + child.length := by
  unfold measure restSize new
  dsimp only
  rcases replicas with _ | ⟨leader, followers⟩
  · simp
  · -- the leader counts one step, the followers the rest
    simp only [ne_eq, reduceCtorEq, not_false_eq_true, and_self, if_true, List.length_cons]
    split_ifs <;> omega

/-- `PartitionAwareQueryPlan::compute_next`, called until it returns none, yields the leader when it
is up, then the followers that are up and `LOCAL`, once around from the start index, then the child
plan's hosts that are not `LOCAL` replicas. -/
theorem hostsAux_new (child replicas : List (Host α)) (startIndex : Nat) {fuel : Nat}
    (hfuel : replicas.length + child.length < fuel) :
    hostsAux isUp distance fuel (new child replicas startIndex) =
      (replicas.head?.filter isUp).toList ++
        QueryPlan.walk (QueryPlan.upAndLocal isUp distance) replicas.tail startIndex ++
        child.filter (QueryPlan.notLocalReplica distance replicas) := by
  rw [hostsAux_eq_pending isUp distance (by rwa [measure_new]), pending_new]

/-- A partition-aware plan yields no address twice when neither the replicas nor the child plan
list one twice, a host is the one object with its address, and the leader, when it is up, is
`LOCAL` to the child policy. -/
theorem nodup_hostsAux_new {child replicas : List (Host α)}
    (hreplicas : (replicas.map (·.address)).Nodup) (hchild : (child.map (·.address)).Nodup)
    (hsame : ∀ r ∈ replicas, ∀ c ∈ child, r.address = c.address → r = c)
    (hleader : ∀ leader ∈ replicas.head?, isUp leader → distance leader = .local)
    (startIndex : Nat) {fuel : Nat} (hfuel : replicas.length + child.length < fuel) :
    ((hostsAux isUp distance fuel (new child replicas startIndex)).map (·.address)).Nodup := by
  rw [hostsAux_new isUp distance child replicas startIndex hfuel]
  -- every host of the first two parts is a `LOCAL` replica
  have hfirst : ∀ x ∈ (replicas.head?.filter isUp).toList ++
      QueryPlan.walk (QueryPlan.upAndLocal isUp distance) replicas.tail startIndex,
      x ∈ replicas ∧ distance x = .local := by
    intro x hx
    rcases List.mem_append.mp hx with hx | hx
    · obtain ⟨hhead, hup⟩ := Option.mem_filter_iff.mp (Option.mem_toList.mp hx)
      exact ⟨List.mem_of_mem_head? hhead, hleader x hhead hup⟩
    · rw [QueryPlan.walk_eq_filter_rotate, List.mem_filter, List.mem_rotate] at hx
      simp only [QueryPlan.upAndLocal, Bool.and_eq_true, decide_eq_true_eq] at hx
      exact ⟨List.mem_of_mem_tail hx.1, hx.2.2⟩
  rw [List.map_append, List.nodup_append]
  refine ⟨?_, hchild.sublist (List.filter_sublist.map _), ?_⟩
  · -- the leader and the followers: distinct addresses of the replicas
    cases replicas with
    | nil => simp [QueryPlan.walk_eq_filter_rotate]
    | cons leader followers =>
      rw [List.map_cons, List.nodup_cons] at hreplicas
      rw [List.head?_cons, List.tail_cons, List.map_append, List.nodup_append]
      refine ⟨?_, QueryPlan.nodup_walk hreplicas.2 _ startIndex, ?_⟩
      · by_cases hup : isUp leader <;> simp [Option.filter, hup]
      · intro a ha b hb hab
        obtain ⟨l, hl, rfl⟩ := List.mem_map.mp ha
        obtain ⟨f, hf, rfl⟩ := List.mem_map.mp hb
        have hleq : l = leader := by
          simpa using (Option.mem_filter_iff.mp (Option.mem_toList.mp hl)).1.symm
        rw [QueryPlan.walk_eq_filter_rotate, List.mem_filter, List.mem_rotate] at hf
        subst hleq
        exact hreplicas.1 (hab ▸ List.mem_map_of_mem hf.1)
  · intro a ha b hb hab
    obtain ⟨r, hr, rfl⟩ := List.mem_map.mp ha
    obtain ⟨c, hc, rfl⟩ := List.mem_map.mp hb
    obtain ⟨hcmem, hcpass⟩ := List.mem_filter.mp hc
    obtain ⟨hrmem, hlocal⟩ := hfirst r hr
    exact QueryPlan.address_ne_of_notLocalReplica distance hrmem hlocal hcpass
      (hsame r hrmem c hcmem) hab

/-- A tablet whose only replica is its leader, up and `REMOTE` to the child policy, and a child plan
that yields the leader: the plan yields the leader twice, once as the leader and once from the
child plan, whose loop passes on every replica that is not `LOCAL`. -/
theorem hostsAux_remoteLeader :
    let leader : Host Nat := ⟨1, "", "dc2", 0, 0⟩
    hostsAux (fun _ => true) (fun _ => .remote) 3 (new [leader] [leader] 0) = [leader, leader] := by
  decide

end

end PartitionAwareQueryPlan

/-! ### `LatencyAwareQueryPlan` -/

/-- `TimestampedAverage` of a host: its average latency (`-1` before any), when it was taken, and
how many latencies it was taken over. -/
structure TimestampedAverage where
  average : Int
  timestamp : UInt64
  numMeasured : UInt64

/-- The `Settings` of `LatencyAwarePolicy` that a plan reads: `min_measured`, `retry_period_ns`,
and `exclusion_threshold` through the bound `static_cast<int64_t>(exclusion_threshold * min)` it
sets on an average when the least average is `min`. -/
structure LatencyAwareSettings where
  minMeasured : UInt64
  retryPeriodNs : UInt64
  exclusionBound : Int → Int

/-- What one call of `compute_next` reads besides the plan: `min_average_`, `uv_hrtime()`, and
each host's `get_current_average()`. -/
structure LatencyReading (α : Type) where
  minAverage : Int
  now : UInt64
  currentAverage : Host α → TimestampedAverage

/-- Whether `compute_next` returns a host as soon as the child plan yields it: with no least
average yet, with too few or too old latencies for the host, or when its average is within the
bound. -/
def LatencyAwareSettings.returnsAtOnce (settings : LatencyAwareSettings)
    (reading : LatencyReading α) (host : Host α) : Bool :=
  let latency := reading.currentAverage host
  decide (reading.minAverage < 0) || decide (latency.average < 0) ||
    decide (latency.numMeasured < settings.minMeasured) ||
    decide (settings.retryPeriodNs < reading.now - latency.timestamp) ||
    decide (latency.average ≤ settings.exclusionBound reading.minAverage)

/-- `LatencyAwareQueryPlan`: what `child_plan_` has left to yield, `skipped_` and
`skipped_index_`. -/
structure LatencyAwareQueryPlan (α : Type) where
  child : List (Host α)
  skipped : List (Host α)
  skippedIndex : Nat

namespace LatencyAwareQueryPlan

/-- The plan `new_query_plan` makes over the child plan. -/
def new (child : List (Host α)) : LatencyAwareQueryPlan α := ⟨child, [], 0⟩

/-- The `while ((host = child_plan_->compute_next()))` loop: a host that is not returned at once
is pushed back onto `skipped_`. -/
def pullChild (accept : Host α → Bool) :
    List (Host α) → List (Host α) → Option (Host α) × List (Host α) × List (Host α)
  | [], skipped => (none, [], skipped)
  | host :: child, skipped =>
    if accept host then (some host, child, skipped)
    else pullChild accept child (skipped ++ [host])

section

variable (settings : LatencyAwareSettings)

/-- `LatencyAwareQueryPlan::compute_next`: the child plan's next host that is returned at once,
or, once the child plan is drained, the next skipped host. -/
def computeNext (reading : LatencyReading α) (q : LatencyAwareQueryPlan α) :
    Option (Host α) × LatencyAwareQueryPlan α :=
  match pullChild (settings.returnsAtOnce reading) q.child q.skipped with
  | (some host, child, skipped) => (some host, ⟨child, skipped, q.skippedIndex⟩)
  | (none, child, skipped) =>
    match skipped[q.skippedIndex]? with
    | some host => (some host, ⟨child, skipped, q.skippedIndex + 1⟩)
    | none => (none, ⟨child, skipped, q.skippedIndex⟩)

/-- The hosts a plan yields over calls that read `readings`, one each, until a call returns
none. -/
def hostsAux : List (LatencyReading α) → LatencyAwareQueryPlan α → List (Host α)
  | [], _ => []
  | reading :: readings, q =>
    match computeNext settings reading q with
    | (some host, q) => host :: hostsAux readings q
    | (none, _) => []

omit [DecidableEq α] in
/-- A host the loop returns comes after the hosts it pushed onto `skipped_`. -/
lemma pullChild_some {accept : Host α → Bool} {child skipped child' skipped' : List (Host α)}
    {host : Host α} (h : pullChild accept child skipped = (some host, child', skipped')) :
    ∃ pre, child = pre ++ host :: child' ∧ skipped' = skipped ++ pre := by
  induction child generalizing skipped with
  | nil => simp [pullChild] at h
  | cons first child ih =>
    unfold pullChild at h
    split_ifs at h
    · simp only [Prod.mk.injEq, Option.some.injEq] at h
      obtain ⟨rfl, rfl, rfl⟩ := h
      exact ⟨[], rfl, by simp⟩
    · obtain ⟨pre, hchild, hskipped⟩ := ih h
      exact ⟨first :: pre, by simp [hchild], by simp [hskipped]⟩

omit [DecidableEq α] in
/-- When the loop returns nothing, it has drained the child plan onto `skipped_`. -/
lemma pullChild_none {accept : Host α → Bool} {child skipped child' skipped' : List (Host α)}
    (h : pullChild accept child skipped = (none, child', skipped')) :
    child' = [] ∧ skipped' = skipped ++ child := by
  induction child generalizing skipped with
  | nil =>
    simp only [pullChild, Prod.mk.injEq, true_and] at h
    simp [h]
  | cons first child ih =>
    unfold pullChild at h
    split_ifs at h
    · simp at h
    · obtain ⟨hchild, hskipped⟩ := ih h
      exact ⟨hchild, by simp [hskipped]⟩

omit [DecidableEq α] in
/-- Once the child plan is drained, the calls yield the skipped hosts left, in order. -/
lemma hostsAux_drain {readings : List (LatencyReading α)} {q : LatencyAwareQueryPlan α}
    (hchild : q.child = []) (hidx : q.skippedIndex ≤ q.skipped.length)
    (hlen : q.skipped.length - q.skippedIndex < readings.length) :
    hostsAux settings readings q = q.skipped.drop q.skippedIndex := by
  induction readings generalizing q with
  | nil => simp at hlen
  | cons reading readings ih =>
    obtain ⟨child, skipped, index⟩ := q
    dsimp only at hchild hidx hlen ⊢
    subst hchild
    rw [List.length_cons] at hlen
    rcases Nat.lt_or_ge index skipped.length with hlt | hge
    · -- the next skipped host
      have hnext := ih (q := ⟨[], skipped, index + 1⟩) rfl hlt (by dsimp only; omega)
      have hcall : computeNext settings reading ⟨[], skipped, index⟩ =
          (some skipped[index], ⟨[], skipped, index + 1⟩) := by
        simp [computeNext, pullChild, List.getElem?_eq_getElem hlt]
      rw [hostsAux, hcall]
      dsimp only
      rw [hnext, List.drop_eq_getElem_cons hlt]
    · -- none left
      have hend : index = skipped.length := by omega
      subst hend
      simp [hostsAux, computeNext, pullChild]

omit [DecidableEq α] in
open List in
/-- What the calls yield from any plan: the hosts of the child plan that some call returns at once,
in their order, then the skipped hosts not yet yielded, then the hosts of the child plan that are
skipped from now on, in their order; the two parts of the child plan make up all of it. -/
theorem hostsAux_spec {readings : List (LatencyReading α)} {q : LatencyAwareQueryPlan α}
    (hidx : q.skippedIndex ≤ q.skipped.length)
    (hlen : q.child.length + (q.skipped.length - q.skippedIndex) < readings.length) :
    ∃ kept skipped, hostsAux settings readings q =
        kept ++ (q.skipped.drop q.skippedIndex ++ skipped) ∧
      kept.Sublist q.child ∧ skipped.Sublist q.child ∧ (kept ++ skipped).Perm q.child := by
  induction readings generalizing q with
  | nil => simp at hlen
  | cons reading readings ih =>
    rw [List.length_cons] at hlen
    rcases hpull : pullChild (settings.returnsAtOnce reading) q.child q.skipped with
      ⟨_ | host, child', skipped'⟩
    · -- the child plan is drained: the rest is the skipped hosts
      obtain ⟨rfl, rfl⟩ := pullChild_none hpull
      have hsame : hostsAux settings (reading :: readings) q =
          hostsAux settings (reading :: readings)
            ⟨[], q.skipped ++ q.child, q.skippedIndex⟩ := by
        simp [hostsAux, computeNext, hpull, pullChild]
      refine ⟨[], q.child, ?_, List.nil_sublist _, List.Sublist.refl _, List.Perm.refl _⟩
      rw [hsame, hostsAux_drain settings rfl (by simp; omega) (by simp; omega),
        List.drop_append_of_le_length hidx]
      simp
    · -- a host returned at once: the rest comes from the plan after it
      obtain ⟨pre, hchild, rfl⟩ := pullChild_some hpull
      have hstep : hostsAux settings (reading :: readings) q =
          host :: hostsAux settings readings ⟨child', q.skipped ++ pre, q.skippedIndex⟩ := by
        simp [hostsAux, computeNext, hpull]
      obtain ⟨kept, skipped, hrest, hkept, hskipped, hperm⟩ :=
        ih (q := ⟨child', q.skipped ++ pre, q.skippedIndex⟩) (by simp; omega)
          (by simp [hchild] at hlen ⊢; omega)
      refine ⟨host :: kept, pre ++ skipped, ?_, ?_, ?_, ?_⟩
      · rw [hstep, hrest]
        simp [List.drop_append_of_le_length hidx]
      · rw [hchild]
        exact (hkept.cons_cons host).trans (List.sublist_append_right pre _)
      · rw [hchild]
        exact (hskipped.cons host).append_left pre
      · rw [hchild]
        calc (host :: kept) ++ (pre ++ skipped)
            = host :: ((kept ++ pre) ++ skipped) := by simp
          _ ~ host :: ((pre ++ kept) ++ skipped) :=
            (List.perm_append_comm.append_right skipped).cons host
          _ = host :: (pre ++ (kept ++ skipped)) := by simp
          _ ~ host :: (pre ++ child') := (hperm.append_left pre).cons host
          _ ~ pre ++ host :: child' := List.perm_middle.symm

omit [DecidableEq α] in
/-- `LatencyAwareQueryPlan::compute_next`, called once more than the child plan has hosts, yields
the child plan's hosts that it returns at once, in their order, then those it skipped, in their
order: each host of the child plan once. -/
theorem hostsAux_new (child : List (Host α)) {readings : List (LatencyReading α)}
    (hlen : child.length < readings.length) :
    ∃ kept skipped, hostsAux settings readings (new child) = kept ++ skipped ∧
      kept.Sublist child ∧ skipped.Sublist child ∧ (kept ++ skipped).Perm child := by
  obtain ⟨kept, skipped, hyield, hkept, hskipped, hperm⟩ :=
    hostsAux_spec settings (q := new child) (by simp [new]) (by simpa [new] using hlen)
  exact ⟨kept, skipped, by simpa [new] using hyield, hkept, hskipped, hperm⟩

end

end LatencyAwareQueryPlan

end CassandraDriver
