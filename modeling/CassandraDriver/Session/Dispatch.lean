import CassandraDriver.Data.BoundedQueue

/-!
# Handing requests to the I/O workers

Application threads call `Session::execute`, which puts the request handler in the session's
request queue, or sets an error on it when the session is not connected or the queue is full.
The session thread's `Session::on_execute` takes every entry out of that queue. For a request it
asks the query plan for a host (`next_host`) and offers the request to the I/O workers in turn,
from `current_io_worker_` on, through `IOWorker::execute`, which puts it in the worker's own queue
unless that queue is full. The first worker that takes it moves `current_io_worker_` past itself.
When no worker takes it, the loop asks the plan for the next host and offers the request to all
the workers again; when the plan has no host left, the request fails with
`CASS_ERROR_LIB_NO_HOSTS_AVAILABLE`. A `NULL` entry means the session closes: after the loop,
`close_async` puts `NULL` in every worker's queue, retrying while the queue is full.
`IOWorker::on_execute` then takes at most `max_requests_per_flush` entries from its queue.

The queues are `BoundedQueue`s. This module has the operations on them; `OnExecute` runs
`on_execute` with the I/O threads taking entries meanwhile.

* On queues that do not change meanwhile, the worker loop offers the request to the first worker
  with room, cyclically from `current_io_worker_`, and to no other (`tryWorkers_eq`), and finds
  none exactly when every queue is full (`tryWorkers_eq_none_iff`).
* An I/O worker takes the oldest entries of its queue, at most `max_requests_per_flush` of them,
  and leaves the others (`ioWorkerOnExecute_spec`).
-/

namespace CassandraDriver.Session

/-- The errors the session sets on a request it cannot hand on. -/
inductive ErrorCode
  | libNoHostsAvailable
  | libRequestQueueFull
  deriving DecidableEq, Repr

/-- An error set on a request: its code and its message. -/
structure RequestError where
  code : ErrorCode
  message : String
  deriving DecidableEq, Repr

/-- The error `on_execute` sets when the plan runs out of hosts. -/
def allBusy : RequestError :=
  ⟨.libNoHostsAvailable, "All connections on all I/O threads are busy"⟩

variable {β ρ η : Type}

/-- `Session::execute`: a request with its query plan enters the session's queue, unless the
session is not connected or the queue is full. -/
def execute (connected : Bool) (queue : BoundedQueue (Option (ρ × List η))) (r : ρ × List η) :
    Except RequestError (BoundedQueue (Option (ρ × List η))) :=
  if !connected then .error ⟨.libNoHostsAvailable, "Session is not connected"⟩
  else
    match queue.enqueue (some r) with
    | some queue => .ok queue
    | none => .error ⟨.libRequestQueueFull, "The request queue has reached capacity"⟩

/-! ### `IOWorker::execute` and the loop over the workers -/

/-- Whether worker `i`'s queue has room, so that `IOWorker::execute` succeeds there. -/
def hasRoomAt (queues : List (BoundedQueue β)) (i : Nat) : Bool :=
  match queues[i]? with
  | some b => decide b.HasRoom
  | none => false

/-- `IOWorker::execute` on worker `i`: the queues after it, `none` when it returns `false`. -/
def ioWorkerExecute (queues : List (BoundedQueue (Option β))) (i : Nat) (x : β) :
    Option (List (BoundedQueue (Option β))) :=
  match queues[i]? with
  | some b => (b.enqueue (some x)).map (queues.set i)
  | none => none

/-- The `for` loop of `on_execute`: `IOWorker::execute` on the workers from `start` on, `k` more
at most; the value of `start` when one took the request, and the queues after. -/
def tryWorkers (x : β) (queues : List (BoundedQueue (Option β))) :
    Nat → Nat → Option (Nat × List (BoundedQueue (Option β)))
  | _, 0 => none
  | start, k + 1 =>
    match ioWorkerExecute queues (start % queues.length) x with
    | some queues' => some (start, queues')
    | none => tryWorkers x queues (start + 1) k

/-- `IOWorker::on_execute`: dequeue entries while `remaining`, which starts at
`max_requests_per_flush`, is not zero. The requests taken, whether a `NULL` entry set the worker
closing, and the queue after. -/
def ioWorkerOnExecute (remaining : Nat) (b : BoundedQueue (Option β)) :
    List β × Bool × BoundedQueue (Option β) :=
  match remaining with
  | 0 => ([], false, b)
  | remaining + 1 =>
    match b.dequeue with
    | none => ([], false, b)
    | some (none, b') =>
      let r := ioWorkerOnExecute remaining b'
      (r.1, true, r.2.2)
    | some (some x, b') =>
      let r := ioWorkerOnExecute remaining b'
      (x :: r.1, r.2.1, r.2.2)

/-! ### The worker loop -/

lemma ioWorkerExecute_eq_none_iff {queues : List (BoundedQueue (Option β))} {i : Nat} {x : β} :
    ioWorkerExecute queues i x = none ↔ hasRoomAt queues i = false := by
  unfold ioWorkerExecute hasRoomAt
  cases queues[i]? with
  | none => simp
  | some b => simp

/-- The loop tries the workers from `start` in turn and stops at the first with room. -/
theorem tryWorkers_eq (x : β) (queues : List (BoundedQueue (Option β))) (k start : Nat) :
    tryWorkers x queues start k =
      ((List.range k).find? fun j => hasRoomAt queues ((start + j) % queues.length)).bind
        fun j => (ioWorkerExecute queues ((start + j) % queues.length) x).map (start + j, ·) := by
  -- one worker per round of the loop, `start` moving on
  induction k generalizing start with
  | zero => rfl
  | succ k ih =>
    rw [tryWorkers, List.range_succ_eq_map, List.find?_cons]
    cases hex : ioWorkerExecute queues (start % queues.length) x with
    | some queues' =>
      have hroom : hasRoomAt queues (start % queues.length) = true := by
        rw [← Bool.not_eq_false, ← ioWorkerExecute_eq_none_iff, hex]
        exact Option.some_ne_none _
      simp only [Nat.add_zero, hroom, Option.bind_some, hex, Option.map_some]
    | none =>
      have hfull : hasRoomAt queues (start % queues.length) = false :=
        ioWorkerExecute_eq_none_iff.mp hex
      have hshift (j : Nat) : start + 1 + j = start + (j + 1) := by omega
      simp only [Nat.add_zero, hfull]
      rw [ih (start + 1), List.find?_map, Option.bind_map]
      simp only [Function.comp_def, Nat.succ_eq_add_one, hshift]

/-- Some offset below `n` from `start` reaches each index below `n`. -/
lemma exists_add_mod_eq {n i : Nat} (start : Nat) (hi : i < n) : ∃ j < n, (start + j) % n = i := by
  have hdiv := Nat.mod_add_div start n
  have hpos : 0 < n := by omega
  have hlt := Nat.mod_lt start hpos
  by_cases hle : start % n ≤ i
  · refine ⟨i - start % n, by omega, ?_⟩
    rw [show start + (i - start % n) = i + n * (start / n) by omega, Nat.add_mul_mod_self_left,
      Nat.mod_eq_of_lt hi]
  · refine ⟨i + n - start % n, by omega, ?_⟩
    rw [show start + (i + n - start % n) = i + n * (start / n + 1) by rw [Nat.mul_add]; omega,
      Nat.add_mul_mod_self_left, Nat.mod_eq_of_lt hi]

/-- The loop over all the workers finds none exactly when every worker's queue is full. -/
theorem tryWorkers_eq_none_iff (x : β) (queues : List (BoundedQueue (Option β))) (start : Nat) :
    tryWorkers x queues start queues.length = none ↔
      ∀ i < queues.length, hasRoomAt queues i = false := by
  rw [tryWorkers_eq, Option.bind_eq_none_iff]
  constructor
  · intro hnone i hi
    obtain ⟨j, hj, hji⟩ := exists_add_mod_eq start hi
    by_contra hroom
    have hfind : ((List.range queues.length).find?
        fun j => hasRoomAt queues ((start + j) % queues.length)).isSome := by
      rw [List.find?_isSome]
      exact ⟨j, List.mem_range.mpr hj, by rw [hji]; simpa using hroom⟩
    obtain ⟨j', hj'⟩ := Option.isSome_iff_exists.mp hfind
    have hroom' : hasRoomAt queues ((start + j') % queues.length) = true :=
      (List.find?_some hj' :)
    have hnone' := hnone j' hj'
    rw [Option.map_eq_none_iff, ioWorkerExecute_eq_none_iff, hroom'] at hnone'
    cases hnone'
  · intro hfull j hj
    have hroom := List.find?_some hj
    have hlen : 0 < queues.length := by
      by_contra h0
      rw [Nat.eq_zero_of_not_pos h0, List.range_zero, List.find?_nil] at hj
      cases hj
    rw [hfull _ (Nat.mod_lt _ hlen)] at hroom
    cases hroom

/-! ### `IOWorker::on_execute` -/

/-- An I/O worker takes the oldest entries of its queue, `max_requests_per_flush` of them when
there are that many; it starts their requests in order, turns closing if one is `NULL`, and
leaves the others for its next wake-up. -/
theorem ioWorkerOnExecute_spec (remaining : Nat) (b : BoundedQueue (Option β)) :
    (ioWorkerOnExecute remaining b).1 = (b.items.take remaining).filterMap id ∧
      ((ioWorkerOnExecute remaining b).2.1 = true ↔ none ∈ b.items.take remaining) ∧
      (ioWorkerOnExecute remaining b).2.2.items = b.items.drop remaining := by
  -- one dequeue per round, `remaining` counting down
  induction remaining generalizing b with
  | zero => simp [ioWorkerOnExecute]
  | succ remaining ih =>
    cases hd : b.dequeue with
    | none =>
      have hnil := BoundedQueue.dequeue_eq_none_iff.mp hd
      simp [ioWorkerOnExecute, hd, hnil]
    | some res =>
      obtain ⟨entry, b'⟩ := res
      have hitems := (BoundedQueue.dequeue_eq_some_iff.mp hd).1
      obtain ⟨ih₁, ih₂, ih₃⟩ := ih b'
      cases entry with
      | none =>
        simp only [ioWorkerOnExecute, hd, hitems, List.take_succ_cons, List.drop_succ_cons,
          List.filterMap_cons, id_eq, List.mem_cons, true_or]
        exact ⟨ih₁, trivial, ih₃⟩
      | some x =>
        simp only [ioWorkerOnExecute, hd, hitems, List.take_succ_cons, List.drop_succ_cons,
          List.filterMap_cons, id_eq, List.mem_cons, reduceCtorEq, false_or]
        exact ⟨by rw [ih₁]; rfl, ih₂, ih₃⟩

end CassandraDriver.Session
