import CassandraDriver.Session.Dispatch

/-!
# `Session::on_execute` with the I/O threads running

The session thread's `Session::on_execute` hands the requests of its queue to the I/O workers
while each I/O thread takes entries out of its own worker's queue. Each worker's queue is an
`SPSCQueue` whose producer is the session thread (`IOWorker::execute`, `close_async`) and whose
consumer is the I/O thread (`IOWorker::on_execute`). By `SPSCQueue.view_step`, every step of
either thread changes the values in the ring by at most one enqueue or dequeue of a
`BoundedQueue`, so the queue is a bounded queue whose operations are atomic. The model therefore
interleaves single operations: a step of the session thread is one dequeue from its own queue,
one `IOWorker::execute` on one worker, one `next_host` or one `close_async` attempt, and between
any two of them every I/O thread may take entries out of its queue.

The state also records what no step reads: the entries each I/O thread took, and for each request
the offers made of it and how it ended.

In every run, whatever the I/O threads do:

* a request fails, with `CASS_ERROR_LIB_NO_HOSTS_AVAILABLE`, exactly when for every host of its
  plan every worker refused it in turn from `current_io_worker_` (`outcome_failed_iff`), each
  refusal on a queue that was full at that moment;
* otherwise a worker took it with some host of its plan, after the refusals of every worker for
  the hosts before it and of the workers before that one, and `current_io_worker_` moved one past
  that worker (`outcome_placed_iff`): with the I/O threads taking entries between the offers, a
  later host of the plan can find room;
* every request taken ends in exactly one worker's queue or with one error, and each worker's
  queue has received exactly the entries it held, the requests it took, and `NULL` when the
  session closes (`onExecute_conserves`), in the order the session thread took them
  (`onExecute_fifo`);
* when every queue has room for all the requests, they go round robin from `current_io_worker_`
  at the first offer each (`onExecute_roundRobin`).
-/

namespace CassandraDriver.Session.OnExecute

/-- One `IOWorker::execute` of a request: the host `next_host` gave it, the worker, and whether
the worker's queue took it. -/
structure Offer (ρ η : Type) where
  request : ρ
  host : η
  worker : Nat
  accepted : Bool
  deriving DecidableEq, Repr

/-- How a request `on_execute` took ended: its plan, `current_io_worker_` when it was taken and
after, the offers made of it in order, and the error set on it when no worker took it. -/
structure Outcome (ρ η : Type) where
  request : ρ
  plan : List η
  start : Nat
  next : Nat
  offers : List (Offer ρ η)
  error : Option RequestError

/-- The request and its plan. -/
def Outcome.entry {ρ η : Type} (o : Outcome ρ η) : ρ × List η := (o.request, o.plan)

/-- Where the session thread stands in `on_execute`: before its next dequeue, before `next_host`
with the hosts of the plan left, in the `for` loop over the workers (`start` and `i` as in the
code) with the host `next_host` gave, in the loop of `close_async` over the workers, or
returned. -/
inductive Pc (ρ η : Type)
  | dequeue
  | nextHost (request : ρ) (plan : List η)
  | offer (request : ρ) (host : η) (rest : List η) (start i : Nat)
  | closeWorker (worker : Nat)
  | done
  deriving DecidableEq, Repr

/-- A step of the session thread, or a dequeue of I/O thread `worker` from its queue. -/
inductive Event
  | session
  | ioDequeue (worker : Nat)
  deriving DecidableEq, Repr

/-- The session thread in `on_execute`: the entries it has still to take from its queue, the
workers' queues, `current_io_worker_`, `is_closing` and where it stands. `tried` holds the hosts
of the current request that every worker refused, `offers` the offers made of it so far,
`outcomes` the requests that ended, and `taken` what each I/O thread took from its queue. -/
structure Exec (ρ η : Type) where
  entries : List (Option (ρ × List η))
  queues : List (BoundedQueue (Option (ρ × η)))
  current : Nat
  closing : Bool
  pc : Pc ρ η
  tried : List η
  offers : List (Offer ρ η)
  outcomes : List (Outcome ρ η)
  taken : Nat → List (Option (ρ × η))

namespace Exec

variable {ρ η : Type}

/-- `on_execute` about to take `entries`, with the workers' queues and `current_io_worker_`. -/
def init (entries : List (Option (ρ × List η))) (queues : List (BoundedQueue (Option (ρ × η))))
    (current : Nat) : Exec ρ η :=
  ⟨entries, queues, current, false, .dequeue, [], [], [], fun _ => []⟩

/-- One step of the session thread; `none` once `on_execute` has returned. -/
def sessionStep (s : Exec ρ η) : Option (Exec ρ η) :=
  match s.pc with
  | .dequeue =>
    match s.entries with
    | [] => some { s with pc := if s.closing then .closeWorker 0 else .done }
    | none :: entries => some { s with entries, closing := true }
    | some (r, plan) :: entries => some { s with entries, pc := .nextHost r plan }
  | .nextHost r plan =>
    match plan with
    | [] =>
      -- no host left: `CASS_ERROR_LIB_NO_HOSTS_AVAILABLE`
      some { s with
        pc := .dequeue
        tried := []
        offers := []
        outcomes := s.outcomes ++ [⟨r, s.tried, s.current, s.current, s.offers, some allBusy⟩] }
    | host :: rest => some { s with pc := .offer r host rest s.current 0 }
  | .offer r host rest start i =>
    if i < s.queues.length then
      match ioWorkerExecute s.queues (start % s.queues.length) (r, host) with
      | some queues =>
        -- the worker took it: `current_io_worker_` moves one past it
        some { s with
          queues
          current := (start + 1) % s.queues.length
          pc := .dequeue
          tried := []
          offers := []
          outcomes := s.outcomes ++ [⟨r, s.tried ++ host :: rest, s.current,
            (start + 1) % s.queues.length,
            s.offers ++ [⟨r, host, start % s.queues.length, true⟩], none⟩] }
      | none =>
        some { s with
          pc := .offer r host rest (start + 1) (i + 1)
          offers := s.offers ++ [⟨r, host, start % s.queues.length, false⟩] }
    else some { s with pc := .nextHost r rest, tried := s.tried ++ [host] }
  | .closeWorker j =>
    match s.queues[j]? with
    | some b =>
      -- `IOWorker::close_async` retries while the queue is full
      match b.enqueue none with
      | some b' => some { s with queues := s.queues.set j b', pc := .closeWorker (j + 1) }
      | none => some s
    | none => some { s with pc := .done }
  | .done => none

/-- I/O thread `j` takes the oldest entry of its queue; `none` when the queue is empty. -/
def ioDequeue (s : Exec ρ η) (j : Nat) : Option (Exec ρ η) :=
  match s.queues[j]? with
  | some b =>
    match b.dequeue with
    | some (x, b') =>
      some { s with
        queues := s.queues.set j b'
        taken := Function.update s.taken j (s.taken j ++ [x]) }
    | none => none
  | none => none

/-- One step. -/
def step (s : Exec ρ η) : Event → Option (Exec ρ η)
  | .session => s.sessionStep
  | .ioDequeue j => s.ioDequeue j

/-- The steps in order, `none` if one cannot be taken. -/
def run (s : Exec ρ η) : List Event → Option (Exec ρ η)
  | [] => some s
  | e :: es => (s.step e).bind fun s => s.run es

end Exec

/-- The states an interleaving reaches from `s₀`. -/
inductive Reachable {ρ η : Type} (s₀ : Exec ρ η) : Exec ρ η → Prop
  | init : Reachable s₀ s₀
  | step {s s' : Exec ρ η} (e : Event) : Reachable s₀ s → s.step e = some s' → Reachable s₀ s'

lemma Reachable.run {ρ η : Type} {s₀ s s' : Exec ρ η} {es : List Event} (hs : Reachable s₀ s)
    (h : s.run es = some s') : Reachable s₀ s' := by
  -- one event at a time, the reachable state moving along
  induction es generalizing s with
  | nil =>
    rw [Exec.run, Option.some.injEq] at h
    exact h ▸ hs
  | cons e es ih =>
    rw [Exec.run, Option.bind_eq_some_iff] at h
    obtain ⟨s₁, h₁, h₂⟩ := h
    exact ih (hs.step e h₁) h₂

/-! ### What a request's offers are -/

variable {ρ η : Type}

/-- A pass of the `for` loop with `(r, host)` over the `n` workers from `start`, each refusing
it. -/
def refusedPass (r : ρ) (start n : Nat) (host : η) : List (Offer ρ η) :=
  (List.range n).map fun i => ⟨r, host, (start + i) % n, false⟩

/-- The entries a run of offers put in worker `j`'s queue, in order. -/
def placedAt (offers : List (Offer ρ η)) (j : Nat) : List (ρ × η) :=
  offers.filterMap fun o => if o.accepted ∧ o.worker = j then some (o.request, o.host) else none

/-- How a request can end: with `CASS_ERROR_LIB_NO_HOSTS_AVAILABLE` after every host of its plan
was refused by every worker, `current_io_worker_` unchanged; or taken by worker
`(start + k) % n` with the `j`-th host, after every worker refused the hosts before it and the
`k` workers before that one refused it, `current_io_worker_` one past that worker. -/
structure Outcome.Ok (n : Nat) (o : Outcome ρ η) : Prop where
  failed : ∀ e, o.error = some e →
    e = allBusy ∧ o.next = o.start ∧ o.offers = o.plan.flatMap (refusedPass o.request o.start n)
  placed : o.error = none → ∃ j host k, o.plan[j]? = some host ∧ k < n ∧
    o.next = (o.start + k + 1) % n ∧
    o.offers = (o.plan.take j).flatMap (refusedPass o.request o.start n) ++
      (refusedPass o.request o.start n host).take k ++ [⟨o.request, host, (o.start + k) % n, true⟩]

lemma accepted_of_mem_refusedPass {r : ρ} {start n : Nat} {host : η} {o : Offer ρ η}
    (h : o ∈ refusedPass r start n host) : o.accepted = false := by
  obtain ⟨i, -, rfl⟩ := List.mem_map.1 h
  rfl

lemma accepted_of_mem_flatMap_refusedPass {r : ρ} {start n : Nat} {hosts : List η}
    {o : Offer ρ η} (h : o ∈ hosts.flatMap (refusedPass r start n)) : o.accepted = false := by
  obtain ⟨host, -, ho⟩ := List.mem_flatMap.1 h
  exact accepted_of_mem_refusedPass ho

lemma placedAt_append (l l' : List (Offer ρ η)) (j : Nat) :
    placedAt (l ++ l') j = placedAt l j ++ placedAt l' j :=
  List.filterMap_append

/-- Refused offers put nothing in any queue. -/
lemma placedAt_of_refused {l : List (Offer ρ η)} (h : ∀ o ∈ l, o.accepted = false) (j : Nat) :
    placedAt l j = [] := by
  rw [placedAt, List.filterMap_eq_nil_iff]
  intro o ho
  simp [h o ho]

lemma length_refusedPass (r : ρ) (start n : Nat) (host : η) :
    (refusedPass r start n host).length = n := by
  rw [refusedPass, List.length_map, List.length_range]

/-- One more refusal of the pass. -/
lemma take_succ_refusedPass {r : ρ} {start n i : Nat} {host : η} (hi : i < n) :
    (refusedPass r start n host).take (i + 1) =
      (refusedPass r start n host).take i ++ [⟨r, host, (start + i) % n, false⟩] := by
  rw [List.take_add_one, List.getElem?_eq_getElem (by rw [length_refusedPass]; exact hi)]
  simp [refusedPass]

namespace Exec

/-- The request `on_execute` is handing on, with its plan. -/
def pending (s : Exec ρ η) : List (ρ × List η) :=
  match s.pc with
  | .nextHost r plan => [(r, s.tried ++ plan)]
  | .offer r host rest _ _ => [(r, s.tried ++ host :: rest)]
  | _ => []

/-- How many workers `close_async` has reached. -/
def closed (s : Exec ρ η) : Nat :=
  match s.pc with
  | .closeWorker j => j
  | .done => if s.closing then s.queues.length else 0
  | _ => 0

/-- The `NULL` entry worker `j` received, if `close_async` reached it. -/
def nullAt (s : Exec ρ η) (j : Nat) : List (Option (ρ × η)) :=
  if j < s.closed then [none] else []

/-- What the session thread knows where it stands: before `next_host` every worker refused the
hosts tried; in the `for` loop the workers from `current_io_worker_` to `start` refused the host
too; and `close_async` runs once the session's queue is empty and a `NULL` entry was met. -/
def PcOk (n : Nat) (s : Exec ρ η) : Pc ρ η → Prop
  | .dequeue => s.offers = [] ∧ s.tried = []
  | .nextHost r _ => s.offers = s.tried.flatMap (refusedPass r s.current n)
  | .offer r host _ start i => start = s.current + i ∧ i ≤ n ∧
    s.offers = s.tried.flatMap (refusedPass r s.current n) ++ (refusedPass r s.current n host).take i
  | .closeWorker j => s.offers = [] ∧ s.tried = [] ∧ s.entries = [] ∧ s.closing = true ∧ j ≤ n
  | .done => s.offers = [] ∧ s.tried = [] ∧ s.entries = []

/-- What holds in every state `on_execute` reaches from the entries `E`, the queues `W` and
`current_io_worker_` `c₀`, whatever the I/O threads do. -/
structure Inv (E : List (Option (ρ × List η))) (W : List (BoundedQueue (Option (ρ × η))))
    (c₀ : Nat) (s : Exec ρ η) : Prop where
  length : s.queues.length = W.length
  capacity : ∀ j : Nat, s.queues[j]?.map BoundedQueue.capacity = W[j]?.map BoundedQueue.capacity
  /-- What each I/O thread took, then what its queue holds: the entries it held, the requests
  the session thread gave it, and `NULL` once `close_async` reached it. -/
  history : ∀ j : Nat, s.queues[j]?.map (fun b => s.taken j ++ b.items) =
    W[j]?.map fun b₀ => b₀.items ++ (placedAt (s.outcomes.flatMap Outcome.offers) j).map some ++
      s.nullAt j
  /-- The requests taken from the session's queue are those that ended and the one in hand. -/
  entries : ∃ pre, E = pre ++ s.entries ∧
    pre.filterMap id = s.outcomes.map Outcome.entry ++ s.pending ∧ (s.closing = true ↔ none ∈ pre)
  pc : PcOk W.length s s.pc
  outcomes : ∀ o ∈ s.outcomes, o.Ok W.length
  /-- Each request starts at `current_io_worker_` as the one before left it. -/
  chain : c₀ :: s.outcomes.map Outcome.next = s.outcomes.map Outcome.start ++ [s.current]

/-! ### What each step keeps -/

/-- Setting a queue to one of the same capacity keeps the capacity of every queue. -/
lemma capacity_set {β : Type} {queues : List (BoundedQueue β)} {k : Nat} {b b' : BoundedQueue β}
    (hb : queues[k]? = some b) (hcap : b'.capacity = b.capacity) (j : Nat) :
    (queues.set k b')[j]?.map BoundedQueue.capacity = queues[j]?.map BoundedQueue.capacity := by
  by_cases hkj : k = j
  · subst hkj
    rw [List.getElem?_set_self (List.getElem?_eq_some_iff.1 hb).1, hb]
    simp [hcap]
  · rw [List.getElem?_set_ne hkj]

lemma ioWorkerExecute_eq_some_iff {β : Type} {queues queues' : List (BoundedQueue (Option β))}
    {i : Nat} {x : β} :
    ioWorkerExecute queues i x = some queues' ↔
      ∃ b b', queues[i]? = some b ∧ b.enqueue (some x) = some b' ∧ queues' = queues.set i b' := by
  unfold ioWorkerExecute
  cases queues[i]? with
  | none => simp
  | some b =>
    simp only [Option.map_eq_some_iff, Option.some.injEq, exists_and_left, exists_eq_left']
    exact ⟨fun ⟨b', hb', h⟩ => ⟨b', hb', h.symm⟩, fun ⟨b', hb', h⟩ => ⟨b', hb', h.symm⟩⟩

variable {E : List (Option (ρ × List η))} {W : List (BoundedQueue (Option (ρ × η)))} {c₀ : Nat}
  {s : Exec ρ η}

lemma inv_init : Inv E W c₀ (init E W c₀) where
  length := rfl
  capacity _ := rfl
  history j := by simp [init, nullAt, closed, placedAt]
  entries := ⟨[], rfl, rfl, by simp [init]⟩
  pc := ⟨rfl, rfl⟩
  outcomes _ h := nomatch h
  chain := rfl

/-- A step that changes neither the queues, what the I/O threads took, the requests that ended
nor how many workers `close_async` reached keeps every worker's history. -/
lemma Inv.history_of_eq (hi : Inv E W c₀ s) {s' : Exec ρ η} (hqueues : s'.queues = s.queues)
    (htaken : s'.taken = s.taken)
    (hplaced : ∀ j, placedAt (s'.outcomes.flatMap Outcome.offers) j =
      placedAt (s.outcomes.flatMap Outcome.offers) j)
    (hclosed : s'.closed = s.closed) : ∀ j : Nat, s'.queues[j]?.map (fun b => s'.taken j ++ b.items) =
      W[j]?.map fun b₀ => b₀.items ++ (placedAt (s'.outcomes.flatMap Outcome.offers) j).map some ++
        s'.nullAt j := by
  intro j
  rw [hqueues, htaken, hplaced, nullAt, hclosed]
  exact hi.history j

/-- `on_execute` finds its queue empty: it returns, or first closes the workers. -/
lemma Inv.dequeueEnd (hi : Inv E W c₀ s) (hpc : s.pc = .dequeue) (hempty : s.entries = []) :
    Inv E W c₀ { s with pc := if s.closing then .closeWorker 0 else .done } := by
  have hok : s.offers = [] ∧ s.tried = [] := by
    have := hi.pc
    rwa [hpc] at this
  -- no worker has been reached yet
  have hclosed : ({ s with pc := if s.closing then .closeWorker 0 else .done } : Exec ρ η).closed =
      s.closed := by
    cases s.closing <;> simp [closed, hpc]
  refine ⟨hi.length, hi.capacity, hi.history_of_eq rfl rfl (fun _ => rfl) hclosed, ?_, ?_, hi.outcomes, hi.chain⟩
  · obtain ⟨pre, hE, hpre, hclose⟩ := hi.entries
    refine ⟨pre, hE, ?_, hclose⟩
    rw [hpre]
    cases s.closing <;> simp [pending, hpc]
  · cases hcl : s.closing
    · exact ⟨hok.1, hok.2, hempty⟩
    · exact ⟨hok.1, hok.2, hempty, rfl, Nat.zero_le _⟩

/-- `on_execute` takes a `NULL` entry: the session is closing. -/
lemma Inv.dequeueNull (hi : Inv E W c₀ s) (hpc : s.pc = .dequeue)
    {entries : List (Option (ρ × List η))} (he : s.entries = none :: entries) :
    Inv E W c₀ { s with entries, closing := true } := by
  have hok : s.offers = [] ∧ s.tried = [] := by
    have := hi.pc
    rwa [hpc] at this
  refine ⟨hi.length, hi.capacity, hi.history_of_eq rfl rfl (fun _ => rfl) (by simp [closed, hpc]), ?_, ?_,
    hi.outcomes, hi.chain⟩
  · obtain ⟨pre, hE, hpre, -⟩ := hi.entries
    refine ⟨pre ++ [none], by rw [hE, he, List.append_assoc]; rfl, ?_, by simp⟩
    rw [List.filterMap_append, hpre]
    simp [pending, hpc]
  · show PcOk W.length _ s.pc
    rw [hpc]
    exact hok

/-- `on_execute` takes a request: `next_host` comes next. -/
lemma Inv.dequeueRequest (hi : Inv E W c₀ s) (hpc : s.pc = .dequeue) {r : ρ} {plan : List η}
    {entries : List (Option (ρ × List η))} (he : s.entries = some (r, plan) :: entries) :
    Inv E W c₀ { s with entries, pc := .nextHost r plan } := by
  obtain ⟨hoffers, htried⟩ : s.offers = [] ∧ s.tried = [] := by
    have := hi.pc
    rwa [hpc] at this
  refine ⟨hi.length, hi.capacity, hi.history_of_eq rfl rfl (fun _ => rfl) (by simp [closed, hpc]), ?_, ?_,
    hi.outcomes, hi.chain⟩
  · obtain ⟨pre, hE, hpre, hclose⟩ := hi.entries
    refine ⟨pre ++ [some (r, plan)], by rw [hE, he, List.append_assoc]; rfl, ?_, by simp [hclose]⟩
    rw [List.filterMap_append, hpre]
    simp [pending, hpc, htried]
  · show s.offers = s.tried.flatMap _
    rw [hoffers, htried, List.flatMap_nil]

/-- `next_host` finds no host left: the request fails. -/
lemma Inv.fail (hi : Inv E W c₀ s) {r : ρ} (hpc : s.pc = .nextHost r []) :
    Inv E W c₀ { s with
      pc := .dequeue
      tried := []
      offers := []
      outcomes := s.outcomes ++ [⟨r, s.tried, s.current, s.current, s.offers, some allBusy⟩] } := by
  have hoffers : s.offers = s.tried.flatMap (refusedPass r s.current W.length) := by
    have := hi.pc
    rwa [hpc] at this
  -- the request's offers were all refused, so no queue got anything
  have hplaced : ∀ j, placedAt ((s.outcomes ++ [(⟨r, s.tried, s.current, s.current, s.offers,
      some allBusy⟩ : Outcome ρ η)]).flatMap Outcome.offers) j =
        placedAt (s.outcomes.flatMap Outcome.offers) j := by
    intro j
    rw [List.flatMap_append, placedAt_append, List.flatMap_singleton]
    dsimp only
    rw [placedAt_of_refused (l := s.offers) (fun o ho => by
      rw [hoffers] at ho
      exact accepted_of_mem_flatMap_refusedPass ho), List.append_nil]
  refine ⟨hi.length, hi.capacity, hi.history_of_eq rfl rfl hplaced (by simp [closed, hpc]), ?_,
    ⟨rfl, rfl⟩, ?_, ?_⟩
  · obtain ⟨pre, hE, hpre, hclose⟩ := hi.entries
    refine ⟨pre, hE, ?_, hclose⟩
    rw [hpre]
    simp [pending, hpc, Outcome.entry]
  · intro o ho
    rcases List.mem_append.1 ho with ho | ho
    · exact hi.outcomes o ho
    · rw [List.mem_singleton] at ho
      subst ho
      refine ⟨fun e he => ?_, fun he => nomatch he⟩
      cases he
      exact ⟨rfl, rfl, hoffers⟩
  · simp only [List.map_append, List.map_singleton]
    rw [← List.cons_append, hi.chain]

/-- `next_host` gives a host: the `for` loop starts at `current_io_worker_`. -/
lemma Inv.firstOffer (hi : Inv E W c₀ s) {r : ρ} {host : η} {rest : List η}
    (hpc : s.pc = .nextHost r (host :: rest)) :
    Inv E W c₀ { s with pc := .offer r host rest s.current 0 } := by
  have hoffers : s.offers = s.tried.flatMap (refusedPass r s.current W.length) := by
    have := hi.pc
    rwa [hpc] at this
  refine ⟨hi.length, hi.capacity, hi.history_of_eq rfl rfl (fun _ => rfl) (by simp [closed, hpc]), ?_, ?_,
    hi.outcomes, hi.chain⟩
  · obtain ⟨pre, hE, hpre, hclose⟩ := hi.entries
    exact ⟨pre, hE, by rw [hpre]; simp [pending, hpc], hclose⟩
  · exact ⟨rfl, Nat.zero_le _, by rw [hoffers, List.take_zero, List.append_nil]⟩

/-- A worker refuses the request: the loop goes on to the next worker. -/
lemma Inv.refused (hi : Inv E W c₀ s) {r : ρ} {host : η} {rest : List η} {start i : Nat}
    (hpc : s.pc = .offer r host rest start i) (hlt : i < s.queues.length) :
    Inv E W c₀ { s with
      pc := .offer r host rest (start + 1) (i + 1)
      offers := s.offers ++ [⟨r, host, start % s.queues.length, false⟩] } := by
  obtain ⟨hstart, -, hoffers⟩ := show PcOk W.length s (.offer r host rest start i) from hpc ▸ hi.pc
  rw [hi.length] at hlt ⊢
  refine ⟨hi.length, hi.capacity, hi.history_of_eq rfl rfl (fun _ => rfl) (by simp [closed, hpc]),
    ?_, ?_, hi.outcomes, hi.chain⟩
  · obtain ⟨pre, hE, hpre, hclose⟩ := hi.entries
    exact ⟨pre, hE, by rw [hpre]; simp [pending, hpc], hclose⟩
  · refine ⟨show start + 1 = s.current + (i + 1) by omega, hlt, ?_⟩
    show s.offers ++ _ = _
    rw [hoffers, take_succ_refusedPass hlt, hstart, List.append_assoc]

/-- A worker takes the request: it ends, and `current_io_worker_` moves one past that worker. -/
lemma Inv.accepted (hi : Inv E W c₀ s) {r : ρ} {host : η} {rest : List η} {start i : Nat}
    (hpc : s.pc = .offer r host rest start i) (hlt : i < s.queues.length)
    {queues : List (BoundedQueue (Option (ρ × η)))}
    (hq : ioWorkerExecute s.queues (start % s.queues.length) (r, host) = some queues) :
    Inv E W c₀ { s with
      queues
      current := (start + 1) % s.queues.length
      pc := .dequeue
      tried := []
      offers := []
      outcomes := s.outcomes ++ [⟨r, s.tried ++ host :: rest, s.current,
        (start + 1) % s.queues.length,
        s.offers ++ [⟨r, host, start % s.queues.length, true⟩], none⟩] } := by
  obtain ⟨hstart, -, hoffers⟩ := show PcOk W.length s (.offer r host rest start i) from hpc ▸ hi.pc
  obtain ⟨b, b', hb, hb', rfl⟩ := ioWorkerExecute_eq_some_iff.1 hq
  obtain ⟨-, hitems, hcap⟩ := BoundedQueue.enqueue_eq_some_iff.1 hb'
  have hn := hi.length
  -- the request's offers put exactly `(r, host)` in the worker's queue
  have hplaced : ∀ j, placedAt ((s.outcomes ++ [(⟨r, s.tried ++ host :: rest, s.current,
      (start + 1) % s.queues.length, s.offers ++ [⟨r, host, start % s.queues.length, true⟩],
      none⟩ : Outcome ρ η)]).flatMap Outcome.offers) j =
        placedAt (s.outcomes.flatMap Outcome.offers) j ++
          if start % s.queues.length = j then [(r, host)] else [] := by
    intro j
    rw [List.flatMap_append, placedAt_append, List.flatMap_singleton]
    dsimp only
    rw [placedAt_append, placedAt_of_refused (l := s.offers) (fun o ho => by
      rw [hoffers] at ho
      rcases List.mem_append.1 ho with ho | ho
      · exact accepted_of_mem_flatMap_refusedPass ho
      · exact accepted_of_mem_refusedPass (List.mem_of_mem_take ho)), List.nil_append]
    by_cases hj : start % s.queues.length = j <;> simp [placedAt, hj]
  refine ⟨by rw [List.length_set, hn], fun j => (capacity_set hb hcap j).trans (hi.capacity j),
    fun j => ?_, ?_, ⟨rfl, rfl⟩, ?_, ?_⟩
  · -- worker `start % n` gained the request at the back, the others nothing
    have hclosed : ({ s with
        queues := s.queues.set (start % s.queues.length) b'
        current := (start + 1) % s.queues.length
        pc := .dequeue
        tried := []
        offers := []
        outcomes := s.outcomes ++ [⟨r, s.tried ++ host :: rest, s.current,
          (start + 1) % s.queues.length,
          s.offers ++ [⟨r, host, start % s.queues.length, true⟩], none⟩] } : Exec ρ η).nullAt j =
        s.nullAt j := by
      simp [nullAt, closed, hpc]
    rw [hclosed, hplaced, List.getElem?_set]
    have hhist := hi.history j
    have hnull : s.nullAt j = [] := by simp [nullAt, closed, hpc]
    split_ifs with hj hlen
    · subst hj
      rw [hb] at hhist
      cases hW : W[start % s.queues.length]? with
      | none => simp [hW] at hhist
      | some b₀ =>
        simp only [hW, Option.map_some, Option.some.injEq, hnull, List.append_nil] at hhist ⊢
        rw [hitems, ← List.append_assoc, hhist, List.map_append, List.append_assoc]
        rfl
    · exact absurd (List.getElem?_eq_some_iff.1 hb).1 (hj ▸ hlen)
    · simp only [List.append_nil]
      exact hhist
  · obtain ⟨pre, hE, hpre, hclose⟩ := hi.entries
    exact ⟨pre, hE, by rw [hpre]; simp [pending, hpc, Outcome.entry], hclose⟩
  · intro o ho
    rcases List.mem_append.1 ho with ho | ho
    · exact hi.outcomes o ho
    · rw [List.mem_singleton] at ho
      subst ho
      refine ⟨fun e he => (nomatch he), fun _ => ⟨s.tried.length, host, i, ?_, ?_, ?_, ?_⟩⟩
      · simp
      · rw [← hn]
        exact hlt
      · rw [hstart, hn]
      · rw [hoffers, List.take_left' rfl, hstart, hn, List.append_assoc]
  · simp only [List.map_append, List.map_singleton]
    rw [← List.cons_append, hi.chain, List.append_assoc]

/-- Every worker refused the host: `next_host` comes next. -/
lemma Inv.exhausted (hi : Inv E W c₀ s) {r : ρ} {host : η} {rest : List η} {start i : Nat}
    (hpc : s.pc = .offer r host rest start i) (hge : ¬ i < s.queues.length) :
    Inv E W c₀ { s with pc := .nextHost r rest, tried := s.tried ++ [host] } := by
  obtain ⟨-, hle, hoffers⟩ := show PcOk W.length s (.offer r host rest start i) from hpc ▸ hi.pc
  rw [hi.length] at hge
  refine ⟨hi.length, hi.capacity, hi.history_of_eq rfl rfl (fun _ => rfl) (by simp [closed, hpc]),
    ?_, ?_, hi.outcomes, hi.chain⟩
  · obtain ⟨pre, hE, hpre, hclose⟩ := hi.entries
    exact ⟨pre, hE, by rw [hpre]; simp [pending, hpc], hclose⟩
  · -- the pass over the workers is complete
    show s.offers = (s.tried ++ [host]).flatMap _
    rw [hoffers, List.flatMap_append, List.flatMap_singleton, show i = W.length by omega,
      List.take_of_length_le (by rw [length_refusedPass])]

/-- `close_async` puts `NULL` in worker `j`'s queue. -/
lemma Inv.closeWorker (hi : Inv E W c₀ s) {j : Nat} (hpc : s.pc = .closeWorker j)
    {b b' : BoundedQueue (Option (ρ × η))} (hb : s.queues[j]? = some b)
    (hb' : b.enqueue none = some b') :
    Inv E W c₀ { s with queues := s.queues.set j b', pc := .closeWorker (j + 1) } := by
  obtain ⟨hoffers, htried, hempty, hcl, -⟩ :=
    show PcOk W.length s (.closeWorker j) from hpc ▸ hi.pc
  obtain ⟨-, hitems, hcap⟩ := BoundedQueue.enqueue_eq_some_iff.1 hb'
  have hj : j < W.length := hi.length ▸ (List.getElem?_eq_some_iff.1 hb).1
  refine ⟨by rw [List.length_set, hi.length],
    fun j' => (capacity_set hb hcap j').trans (hi.capacity j'), fun j' => ?_, ?_,
    ⟨hoffers, htried, hempty, hcl, hj⟩, hi.outcomes, hi.chain⟩
  · -- worker `j` now has its `NULL`, the others are as they were
    have hhist := hi.history j'
    have hnull : s.nullAt j' = if j' < j then [none] else [] := by simp only [nullAt, closed, hpc]
    rw [hnull] at hhist
    show (s.queues.set j b')[j']?.map (fun b => s.taken j' ++ b.items) =
      W[j']?.map fun b₀ => b₀.items ++ (placedAt (s.outcomes.flatMap Outcome.offers) j').map some ++
        if j' < j + 1 then [none] else []
    by_cases hjj : j = j'
    · subst hjj
      rw [List.getElem?_set_self (List.getElem?_eq_some_iff.1 hb).1, if_pos (Nat.lt_succ_self _)]
      rw [hb, if_neg (Nat.lt_irrefl _)] at hhist
      cases hW : W[j]? with
      | none => simp [hW] at hhist
      | some b₀ =>
        simp only [hW, Option.map_some, Option.some.injEq, List.append_nil] at hhist ⊢
        rw [hitems, ← List.append_assoc, hhist]
    · have hiff : j' < j + 1 ↔ j' < j := by omega
      rw [List.getElem?_set_ne hjj]
      simp only [hiff]
      exact hhist
  · obtain ⟨pre, hE, hpre, hclose⟩ := hi.entries
    exact ⟨pre, hE, by rw [hpre]; simp [pending, hpc], hclose⟩

/-- `close_async` has reached every worker: `on_execute` returns. -/
lemma Inv.closeDone (hi : Inv E W c₀ s) {j : Nat} (hpc : s.pc = .closeWorker j)
    (hb : s.queues[j]? = none) : Inv E W c₀ { s with pc := .done } := by
  obtain ⟨hoffers, htried, hempty, hcl, hle⟩ :=
    show PcOk W.length s (.closeWorker j) from hpc ▸ hi.pc
  have hj : j = s.queues.length := by
    have := List.getElem?_eq_none_iff.1 hb
    rw [hi.length] at this ⊢
    omega
  refine ⟨hi.length, hi.capacity, hi.history_of_eq rfl rfl (fun _ => rfl)
    (by simp [closed, hpc, hcl, hj]), ?_, ⟨hoffers, htried, hempty⟩, hi.outcomes, hi.chain⟩
  obtain ⟨pre, hE, hpre, hclose⟩ := hi.entries
  exact ⟨pre, hE, by rw [hpre]; simp [pending, hpc], hclose⟩

/-- An I/O thread takes the oldest entry of its queue. -/
lemma Inv.ioDequeue (hi : Inv E W c₀ s) {j : Nat} {b b' : BoundedQueue (Option (ρ × η))}
    {x : Option (ρ × η)} (hb : s.queues[j]? = some b) (hd : b.dequeue = some (x, b')) :
    Inv E W c₀ { s with
      queues := s.queues.set j b'
      taken := Function.update s.taken j (s.taken j ++ [x]) } := by
  obtain ⟨hitems, hcap⟩ := BoundedQueue.dequeue_eq_some_iff.1 hd
  refine ⟨by rw [List.length_set, hi.length],
    fun j' => (capacity_set hb hcap j').trans (hi.capacity j'), fun j' => ?_, hi.entries, hi.pc,
    hi.outcomes, hi.chain⟩
  · -- what the thread took and what its queue holds together stay as they were
    have hclosed : ({ s with
        queues := s.queues.set j b'
        taken := Function.update s.taken j (s.taken j ++ [x]) } : Exec ρ η).closed = s.closed := by
      simp only [closed, List.length_set]
    have hnull : ({ s with
        queues := s.queues.set j b'
        taken := Function.update s.taken j (s.taken j ++ [x]) } : Exec ρ η).nullAt j' =
        s.nullAt j' := by
      rw [nullAt, hclosed, nullAt]
    have hhist := hi.history j'
    rw [hnull]
    show (s.queues.set j b')[j']?.map
      (fun b => Function.update s.taken j (s.taken j ++ [x]) j' ++ b.items) = _
    by_cases hjj : j = j'
    · subst hjj
      rw [List.getElem?_set_self (List.getElem?_eq_some_iff.1 hb).1, Function.update_self]
      rw [hb] at hhist
      rw [← hhist]
      simp [hitems]
    · rw [List.getElem?_set_ne hjj, Function.update_of_ne (Ne.symm hjj)]
      exact hhist

/-- Every step keeps the invariant: one case for each place the session thread can stand, and
the I/O threads' dequeues. -/
theorem Inv.step (hi : Inv E W c₀ s) {e : Event} {s' : Exec ρ η} (h : s.step e = some s') :
    Inv E W c₀ s' := by
  cases e with
  | session =>
    cases hpc : s.pc with
    | dequeue =>
      cases he : s.entries with
      | nil =>
        simp only [Exec.step, sessionStep, hpc, he] at h
        cases h
        have hend := hi.dequeueEnd hpc he
        rwa [he] at hend
      | cons entry entries =>
        cases entry with
        | none =>
          simp only [Exec.step, sessionStep, hpc, he] at h
          cases h
          have hnull := hi.dequeueNull hpc he
          rwa [hpc] at hnull
        | some req =>
          obtain ⟨r, plan⟩ := req
          simp only [Exec.step, sessionStep, hpc, he] at h
          cases h
          exact hi.dequeueRequest hpc he
    | nextHost r plan =>
      cases plan with
      | nil =>
        simp only [Exec.step, sessionStep, hpc] at h
        cases h
        exact hi.fail hpc
      | cons host rest =>
        simp only [Exec.step, sessionStep, hpc] at h
        cases h
        exact hi.firstOffer hpc
    | offer r host rest start i =>
      simp only [Exec.step, sessionStep, hpc] at h
      split_ifs at h with hlt
      · cases hq : ioWorkerExecute s.queues (start % s.queues.length) (r, host) with
        | some queues =>
          rw [hq] at h
          cases h
          exact hi.accepted hpc hlt hq
        | none =>
          rw [hq] at h
          cases h
          exact hi.refused hpc hlt
      · cases h
        exact hi.exhausted hpc hlt
    | closeWorker j =>
      cases hb : s.queues[j]? with
      | none =>
        simp only [Exec.step, sessionStep, hpc, hb] at h
        cases h
        exact hi.closeDone hpc hb
      | some b =>
        cases hb' : b.enqueue none with
        | some b' =>
          simp only [Exec.step, sessionStep, hpc, hb, hb'] at h
          cases h
          exact hi.closeWorker hpc hb hb'
        | none =>
          -- the queue is full: `close_async` tries again
          simp only [Exec.step, sessionStep, hpc, hb, hb'] at h
          cases h
          exact hi
    | done => simp only [Exec.step, sessionStep, hpc, reduceCtorEq] at h
  | ioDequeue j =>
    cases hb : s.queues[j]? with
    | none => simp only [Exec.step, Exec.ioDequeue, hb, reduceCtorEq] at h
    | some b =>
      cases hd : b.dequeue with
      | none => simp only [Exec.step, Exec.ioDequeue, hb, hd, reduceCtorEq] at h
      | some res =>
        obtain ⟨x, b'⟩ := res
        simp only [Exec.step, Exec.ioDequeue, hb, hd] at h
        cases h
        exact hi.ioDequeue hb hd

end Exec

/-- What holds in every state `on_execute` reaches. -/
theorem Reachable.inv {E : List (Option (ρ × List η))} {W : List (BoundedQueue (Option (ρ × η)))}
    {c₀ : Nat} {s : Exec ρ η} (hr : Reachable (Exec.init E W c₀) s) : s.Inv E W c₀ := by
  induction hr with
  | init => exact Exec.inv_init
  | step _ _ h ih => exact ih.step h

/-! ### What a request's offers give -/

lemma filter_accepted_of_refused {l : List (Offer ρ η)} (h : ∀ o ∈ l, o.accepted = false) :
    l.filter (·.accepted) = [] :=
  List.filter_eq_nil_iff.2 fun o ho => by simp [h o ho]

/-- A request's offers are all refused but the last, when a worker took it. -/
lemma Outcome.Ok.offers_eq {n : Nat} {o : Outcome ρ η} (hok : o.Ok n) :
    ∃ refused, (∀ x ∈ refused, x.accepted = false) ∧
      (o.error.isSome ∧ o.offers = refused ∨
        o.error = none ∧ ∃ host w, o.offers = refused ++ [⟨o.request, host, w, true⟩]) := by
  cases herr : o.error with
  | some e =>
    obtain ⟨-, -, hoffers⟩ := hok.failed e herr
    exact ⟨o.offers, fun x hx => by
      rw [hoffers] at hx
      exact accepted_of_mem_flatMap_refusedPass hx, .inl ⟨rfl, rfl⟩⟩
  | none =>
    obtain ⟨j, host, k, -, -, -, hoffers⟩ := hok.placed herr
    refine ⟨_, fun x hx => ?_, .inr ⟨rfl, host, _, hoffers⟩⟩
    rcases List.mem_append.1 hx with hx | hx
    · exact accepted_of_mem_flatMap_refusedPass hx
    · exact accepted_of_mem_refusedPass (List.mem_of_mem_take hx)

/-- A request puts at most itself, with one host, in a worker's queue. -/
lemma Outcome.Ok.placedAt_eq {n : Nat} {o : Outcome ρ η} (hok : o.Ok n) (j : Nat) :
    placedAt o.offers j = [] ∨ ∃ host, placedAt o.offers j = [(o.request, host)] := by
  obtain ⟨refused, hrefused, (⟨-, hoffers⟩ | ⟨-, host, w, hoffers⟩)⟩ := hok.offers_eq
  · exact .inl (hoffers ▸ placedAt_of_refused hrefused j)
  · rw [hoffers, placedAt_append, placedAt_of_refused hrefused, List.nil_append]
    by_cases hw : w = j
    · exact .inr ⟨host, by simp [placedAt, hw]⟩
    · exact .inl (by simp [placedAt, hw])

/-- What the requests that ended put in worker `j`'s queue is, in order, some of those
requests. -/
lemma sublist_placedAt {n : Nat} (j : Nat) :
    ∀ os : List (Outcome ρ η), (∀ o ∈ os, o.Ok n) →
      ((placedAt (os.flatMap Outcome.offers) j).map Prod.fst).Sublist (os.map Outcome.request)
  | [], _ => List.Sublist.slnil
  | o :: os, hok => by
    rw [List.flatMap_cons, placedAt_append, List.map_append, List.map_cons]
    have hrest := sublist_placedAt j os fun o' ho' => hok o' (List.mem_cons_of_mem _ ho')
    rcases (hok o (List.mem_cons_self ..)).placedAt_eq j with h | ⟨host, h⟩
    · rw [h, List.map_nil, List.nil_append]
      exact hrest.cons _
    · rw [h, List.map_singleton, List.singleton_append]
      exact hrest.cons_cons _

/-! ### What `on_execute` guarantees -/

variable {E : List (Option (ρ × List η))} {W : List (BoundedQueue (Option (ρ × η)))} {c₀ : Nat}
  {s : Exec ρ η}

/-- Two workers of one slot each, both holding an entry. -/
def busyWorkers : List (BoundedQueue (Option (Nat × Nat))) :=
  [⟨[some (0, 0)], 1, le_rfl⟩, ⟨[some (0, 0)], 1, le_rfl⟩]

/-- A request with two hosts, one with one host, then `NULL`. -/
def busyEntries : List (Option (Nat × List Nat)) := [some (1, [10, 20]), some (2, [30]), none]

/-- Both workers refuse host 10; I/O thread 1 then frees its slot, and worker 1 takes the request
with host 20 at its second offer; both workers refuse the second request, which fails;
`close_async` retries on worker 0 until its thread takes an entry. -/
def busyEvents : List Event :=
  [.session, .session, .session, .session, .session, .ioDequeue 1,
    .session, .session, .session, .session, .session, .session,
    .session, .session, .session, .session, .session, .session,
    .ioDequeue 0, .session, .ioDequeue 1, .session, .session]

/-- Whatever the I/O threads take meanwhile, a request fails, with
`CASS_ERROR_LIB_NO_HOSTS_AVAILABLE` and "All connections on all I/O threads are busy", exactly
when every host of its plan was offered to every worker in turn from `current_io_worker_` and
refused each time (by `ioWorkerExecute_eq_none_iff`, on a queue full at that moment); then
`current_io_worker_` stays where it was. -/
theorem outcome_failed_iff (hr : Reachable (Exec.init E W c₀) s) {o : Outcome ρ η}
    (ho : o ∈ s.outcomes) (e : RequestError) :
    o.error = some e ↔ e = allBusy ∧ o.next = o.start ∧
      o.offers = o.plan.flatMap (refusedPass o.request o.start W.length) := by
  have hok := hr.inv.outcomes o ho
  refine ⟨hok.failed e, ?_⟩
  rintro ⟨rfl, -, hoffers⟩
  cases herr : o.error with
  | some e' => rw [(hok.failed e' herr).1]
  | none =>
    -- a request a worker took has an accepted offer, which no pass of refusals has
    obtain ⟨j, host, k, -, -, -, hoffers'⟩ := hok.placed herr
    have hacc : (⟨o.request, host, (o.start + k) % W.length, true⟩ : Offer ρ η) ∈ o.offers := by
      rw [hoffers']
      exact List.mem_append_right _ (List.mem_singleton_self _)
    rw [hoffers] at hacc
    cases accepted_of_mem_flatMap_refusedPass hacc

/-- In the run above the second request fails, after both workers refused its only host. -/
theorem outcome_failed_iff_busyRun :
    ∃ s, (Exec.init busyEntries busyWorkers 0).run busyEvents = some s ∧
      s.outcomes.map Outcome.error = [none, some allBusy] ∧
      ∀ o ∈ s.outcomes, ∀ e, o.error = some e ↔ e = allBusy ∧ o.next = o.start ∧
        o.offers = o.plan.flatMap (refusedPass o.request o.start busyWorkers.length) :=
  have hrun : (Exec.init busyEntries busyWorkers 0).run busyEvents = some _ := rfl
  ⟨_, hrun, rfl, fun _ ho e => outcome_failed_iff (Reachable.run .init hrun) ho e⟩

/-- Whatever the I/O threads take meanwhile, a worker takes a request exactly when it went, with
the `j`-th host of its plan, to worker `(start + k) % n`, after every worker refused the hosts
before it and the `k` workers before that one refused it: the hosts after the first are used
when the I/O threads free no room in time. `current_io_worker_` then moves one past that worker,
and each request starts where the one before left it. -/
theorem outcome_placed_iff (hr : Reachable (Exec.init E W c₀) s) :
    (∀ o ∈ s.outcomes, o.error = none ↔ ∃ j host k, o.plan[j]? = some host ∧ k < W.length ∧
      o.next = (o.start + k + 1) % W.length ∧
      o.offers = (o.plan.take j).flatMap (refusedPass o.request o.start W.length) ++
        (refusedPass o.request o.start W.length host).take k ++
        [⟨o.request, host, (o.start + k) % W.length, true⟩]) ∧
    c₀ :: s.outcomes.map Outcome.next = s.outcomes.map Outcome.start ++ [s.current] := by
  have hi := hr.inv
  refine ⟨fun o ho => ⟨(hi.outcomes o ho).placed, ?_⟩, hi.chain⟩
  rintro ⟨j, host, k, -, -, -, hoffers⟩
  cases herr : o.error with
  | none => rfl
  | some e =>
    -- a failed request's offers are all refused, and this one has an accepted offer
    have hacc : (⟨o.request, host, (o.start + k) % W.length, true⟩ : Offer ρ η) ∈ o.offers := by
      rw [hoffers]
      exact List.mem_append_right _ (List.mem_singleton_self _)
    rw [((hi.outcomes o ho).failed e herr).2.2] at hacc
    cases accepted_of_mem_flatMap_refusedPass hacc

/-- In the run above worker 1 takes the first request with the second host of its plan, after
both workers refused the first and worker 0 the second. -/
theorem outcome_placed_iff_busyRun :
    ∃ s, (Exec.init busyEntries busyWorkers 0).run busyEvents = some s ∧
      (s.outcomes.map fun o => o.offers.map fun x => (x.host, x.worker, x.accepted)) =
        [[(10, 0, false), (10, 1, false), (20, 0, false), (20, 1, true)],
          [(30, 0, false), (30, 1, false)]] ∧
      (∀ o ∈ s.outcomes, o.error = none ↔ ∃ j host k, o.plan[j]? = some host ∧
        k < busyWorkers.length ∧ o.next = (o.start + k + 1) % busyWorkers.length ∧
        o.offers = (o.plan.take j).flatMap (refusedPass o.request o.start busyWorkers.length) ++
          (refusedPass o.request o.start busyWorkers.length host).take k ++
          [⟨o.request, host, (o.start + k) % busyWorkers.length, true⟩]) ∧
      0 :: s.outcomes.map Outcome.next = s.outcomes.map Outcome.start ++ [s.current] :=
  have hrun : (Exec.init busyEntries busyWorkers 0).run busyEvents = some _ := rfl
  ⟨_, hrun, rfl, outcome_placed_iff (Reachable.run .init hrun)⟩

/-- Whatever the I/O threads take meanwhile, every request `on_execute` took has ended, or is the
one in hand; each that ended went to exactly one worker's queue or failed with one error; and each
worker's thread took, then its queue holds, exactly the entries it held, the requests the session
thread gave it, and `NULL` once `close_async` reached it: no entry is lost, duplicated or
invented. -/
theorem onExecute_conserves (hr : Reachable (Exec.init E W c₀) s) :
    (∃ pre, E = pre ++ s.entries ∧ pre.filterMap id = s.outcomes.map Outcome.entry ++ s.pending) ∧
    (∀ o ∈ s.outcomes, (o.offers.filter (·.accepted)).length = if o.error = none then 1 else 0) ∧
    ∀ j : Nat, s.queues[j]?.map (fun b => s.taken j ++ b.items) =
      W[j]?.map fun b₀ => b₀.items ++ (placedAt (s.outcomes.flatMap Outcome.offers) j).map some ++
        s.nullAt j := by
  have hi := hr.inv
  obtain ⟨pre, hE, hpre, -⟩ := hi.entries
  refine ⟨⟨pre, hE, hpre⟩, fun o ho => ?_, hi.history⟩
  obtain ⟨refused, hrefused, (⟨herr, hoffers⟩ | ⟨herr, host, w, hoffers⟩)⟩ :=
    (hi.outcomes o ho).offers_eq
  · rw [hoffers, filter_accepted_of_refused hrefused, if_neg (by
      intro h
      rw [h] at herr
      cases herr)]
    rfl
  · rw [hoffers, List.filter_append, filter_accepted_of_refused hrefused, if_pos herr]
    rfl

/-- In the run above I/O thread 1 took the entry it held and the first request, and both queues end
holding `NULL`. -/
theorem onExecute_conserves_busyRun :
    ∃ s, (Exec.init busyEntries busyWorkers 0).run busyEvents = some s ∧
      s.taken 1 = [some (0, 0), some (1, 20)] ∧ s.queues.map BoundedQueue.items = [[none], [none]] ∧
      (∃ pre, busyEntries = pre ++ s.entries ∧
        pre.filterMap id = s.outcomes.map Outcome.entry ++ s.pending) ∧
      (∀ o ∈ s.outcomes, (o.offers.filter (·.accepted)).length = if o.error = none then 1 else 0) ∧
      ∀ j : Nat, s.queues[j]?.map (fun b => s.taken j ++ b.items) =
        busyWorkers[j]?.map fun b₀ => b₀.items ++
          (placedAt (s.outcomes.flatMap Outcome.offers) j).map some ++ s.nullAt j :=
  have hrun : (Exec.init busyEntries busyWorkers 0).run busyEvents = some _ := rfl
  ⟨_, hrun, rfl, rfl, onExecute_conserves (Reachable.run .init hrun)⟩

/-- Whatever the I/O threads take meanwhile, each worker's thread took, then its queue holds, the
entries it held, then some of the requests `on_execute` took, each with a host, in the order it
took them from the session's queue, then `NULL` once `close_async` reached it. -/
theorem onExecute_fifo (hr : Reachable (Exec.init E W c₀) s) (j : Nat) :
    ∃ l : List (ρ × η), (l.map Prod.fst).Sublist ((E.filterMap id).map Prod.fst) ∧
      s.queues[j]?.map (fun b => s.taken j ++ b.items) =
        W[j]?.map fun b₀ => b₀.items ++ l.map some ++ s.nullAt j := by
  have hi := hr.inv
  obtain ⟨pre, hE, hpre, -⟩ := hi.entries
  refine ⟨placedAt (s.outcomes.flatMap Outcome.offers) j, ?_, hi.history j⟩
  -- the requests that ended come first among those taken, in order
  have hprefix : (s.outcomes.map Outcome.request).Sublist ((E.filterMap id).map Prod.fst) := by
    rw [hE, List.filterMap_append, hpre, List.map_append, List.map_append, List.map_map]
    exact (List.sublist_append_left _ _).trans (List.sublist_append_left _ _)
  exact (sublist_placedAt j s.outcomes hi.outcomes).trans hprefix

/-- In the run above worker 1's queue received, after its entry, the first request with host 20,
then `NULL`. -/
theorem onExecute_fifo_busyRun :
    ∃ s, (Exec.init busyEntries busyWorkers 0).run busyEvents = some s ∧
      s.taken 1 ++ (s.queues.map BoundedQueue.items).getD 1 [] = [some (0, 0), some (1, 20), none] ∧
      ∃ l : List (Nat × Nat), (l.map Prod.fst).Sublist ((busyEntries.filterMap id).map Prod.fst) ∧
        s.queues[1]?.map (fun b => s.taken 1 ++ b.items) =
          busyWorkers[1]?.map fun b₀ => b₀.items ++ l.map some ++ s.nullAt 1 :=
  have hrun : (Exec.init busyEntries busyWorkers 0).run busyEvents = some _ := rfl
  ⟨_, hrun, rfl, onExecute_fifo (Reachable.run .init hrun) 1⟩

/-! ### Round robin -/

/-- Each request ends in one worker's queue at most. -/
lemma length_placedAt_le {n : Nat} (j : Nat) :
    ∀ os : List (Outcome ρ η), (∀ o ∈ os, o.Ok n) →
      (placedAt (os.flatMap Outcome.offers) j).length ≤ os.length
  | [], _ => le_rfl
  | o :: os, hok => by
    rw [List.flatMap_cons, placedAt_append, List.length_append, List.length_cons]
    have hrest := length_placedAt_le j os fun o' ho' => hok o' (List.mem_cons_of_mem _ ho')
    rcases (hok o (List.mem_cons_self ..)).placedAt_eq j with h | ⟨host, h⟩ <;> rw [h] <;> simp <;>
      omega

/-- A counter that each element moves on by one, modulo `n`, from `c₀`: the `k`-th element starts
at `c₀ + k`, and the counter ends at `c₀` plus the number of elements, modulo `n`. -/
lemma chain_mod {α : Type} (f g : α → Nat) (n : Nat) :
    ∀ (l : List α) (c₀ c : Nat), (∀ a ∈ l, g a = (f a + 1) % n) →
      c₀ :: l.map g = l.map f ++ [c] →
      (∀ k a, l[k]? = some a → f a % n = (c₀ + k) % n) ∧ c % n = (c₀ + l.length) % n
  | [], c₀, c, _, h => by
    simp only [List.map_nil, List.nil_append, List.cons.injEq, and_true] at h
    exact ⟨fun _ _ ha => (nomatch ha), by rw [h, List.length_nil, Nat.add_zero]⟩
  | a :: l, c₀, c, hg, h => by
    simp only [List.map_cons, List.cons_append, List.cons.injEq] at h
    obtain ⟨rfl, hrest⟩ := h
    obtain ⟨hk, hc⟩ :=
      chain_mod f g n l (g a) c (fun a' ha' => hg a' (List.mem_cons_of_mem _ ha')) hrest
    -- the rest starts one further on
    have hshift : ∀ m, (g a + m) % n = (f a + (m + 1)) % n := fun m => by
      rw [hg a (List.mem_cons_self ..), Nat.mod_add_mod, Nat.add_comm m 1, Nat.add_assoc]
    refine ⟨fun k b hb => ?_, by rw [hc, hshift, List.length_cons]⟩
    cases k with
    | zero =>
      cases hb
      rfl
    | succ k =>
      rw [List.getElem?_cons_succ] at hb
      rw [hk k b hb, hshift]

/-- The first offer of a pass goes to the worker the pass starts at. -/
lemma refusedPass_of_pos (r : ρ) (start : Nat) {n : Nat} (host : η) (hn : 0 < n) :
    ∃ rest, refusedPass r start n host = ⟨r, host, start % n, false⟩ :: rest := by
  obtain ⟨m, rfl⟩ := Nat.exists_eq_add_one_of_ne_zero (Nat.pos_iff_ne_zero.1 hn)
  exact ⟨_, by rw [refusedPass, List.range_succ_eq_map, List.map_cons, Nat.add_zero]⟩

/-- A request none of whose offers was refused went, with its plan's first host, to the worker it
started at. -/
lemma Outcome.Ok.first_offer {n : Nat} {o : Outcome ρ η} (hok : o.Ok n) (hn : 0 < n)
    (hplan : o.plan ≠ []) (hacc : ∀ x ∈ o.offers, x.accepted = true) :
    o.error = none ∧ ∃ host rest, o.plan = host :: rest ∧ o.next = (o.start + 1) % n ∧
      o.offers = [⟨o.request, host, o.start % n, true⟩] := by
  obtain ⟨host₀, rest₀, hplan₀⟩ := List.exists_cons_of_ne_nil hplan
  have hrefused : ∀ host, ⟨o.request, host, o.start % n, false⟩ ∉ o.offers := fun host hx => by
    cases hacc _ hx
  obtain ⟨pass₀, hpass₀⟩ := refusedPass_of_pos o.request o.start host₀ hn
  cases herr : o.error with
  | some e =>
    -- a failed request was refused by the plan's first host first
    apply absurd _ (hrefused host₀)
    rw [(hok.failed e herr).2.2, hplan₀, List.flatMap_cons, hpass₀]
    exact List.mem_append_left _ (List.mem_cons_self ..)
  | none =>
    obtain ⟨j, host, k, hj, -, hnext, hoffers⟩ := hok.placed herr
    -- no host before the one taken, and no worker before the one that took it
    have hj0 : j = 0 := by
      cases j with
      | zero => rfl
      | succ j =>
        apply absurd _ (hrefused host₀)
        rw [hoffers, hplan₀, List.take_succ_cons, List.flatMap_cons, hpass₀]
        exact List.mem_append_left _ (List.mem_append_left _
          (List.mem_append_left _ (List.mem_cons_self ..)))
    have hk0 : k = 0 := by
      cases k with
      | zero => rfl
      | succ k =>
        obtain ⟨pass, hpass⟩ := refusedPass_of_pos o.request o.start host hn
        apply absurd _ (hrefused host)
        rw [hoffers, hpass, List.take_succ_cons]
        exact List.mem_append_left _ (List.mem_append_right _ (List.mem_cons_self ..))
    subst hj0 hk0
    rw [hplan₀, List.getElem?_cons_zero, Option.some.injEq] at hj
    subst hj
    refine ⟨rfl, host₀, rest₀, hplan₀, hnext, ?_⟩
    rw [hoffers, List.take_zero, List.take_zero, List.flatMap_nil, List.nil_append,
      List.nil_append, Nat.add_zero]

/-- Every offer so far was taken at once: no worker refused a request, and no host was
exhausted. -/
structure FirstOffers (s : Exec ρ η) : Prop where
  outcomes : ∀ o ∈ s.outcomes, ∀ x ∈ o.offers, x.accepted = true
  offers : s.offers = []
  tried : s.tried = []

section RoundRobin

variable (hn : W ≠ []) (hroom : ∀ b ∈ W, b.items.length + (E.filterMap id).length ≤ b.capacity)
  (hplans : ∀ x ∈ E.filterMap id, x.2 ≠ [])

/-- The requests that ended, and the one in hand, are among `E`'s. -/
lemma Exec.Inv.length_outcomes_add_pending (hi : Exec.Inv E W c₀ s) :
    s.outcomes.length + s.pending.length ≤ (E.filterMap id).length := by
  obtain ⟨pre, hE, hpre, -⟩ := hi.entries
  have hlen := congrArg List.length hpre
  rw [List.length_append, List.length_map] at hlen
  rw [hE, List.filterMap_append, List.length_append, ← hlen]
  exact Nat.le_add_right _ _

lemma Exec.Inv.mem_of_pending (hi : Exec.Inv E W c₀ s) {x : ρ × List η} (hx : x ∈ s.pending) :
    x ∈ E.filterMap id := by
  obtain ⟨pre, hE, hpre, -⟩ := hi.entries
  rw [hE, List.filterMap_append, hpre]
  exact List.mem_append_left _ (List.mem_append_right _ hx)

lemma Exec.Inv.entry_mem (hi : Exec.Inv E W c₀ s) {o : Outcome ρ η} (ho : o ∈ s.outcomes) :
    o.entry ∈ E.filterMap id := by
  obtain ⟨pre, hE, hpre, -⟩ := hi.entries
  rw [hE, List.filterMap_append, hpre]
  exact List.mem_append_left _ (List.mem_append_left _ (List.mem_map_of_mem ho))

include hroom in
/-- With room in every queue for all of `E`'s requests, every worker has room while the session
thread offers a request: a queue holds its first entries and at most one entry per request that
ended, and the request in hand has not ended. -/
lemma Exec.Inv.hasRoomAt_of_offer (hi : Exec.Inv E W c₀ s) {r : ρ} {host : η} {rest : List η}
    {start i : Nat} (hpc : s.pc = .offer r host rest start i) {j : Nat}
    (hj : j < s.queues.length) : hasRoomAt s.queues j = true := by
  obtain ⟨b, hb⟩ : ∃ b, s.queues[j]? = some b := ⟨_, List.getElem?_eq_getElem hj⟩
  obtain ⟨b₀, hW⟩ : ∃ b₀, W[j]? = some b₀ :=
    ⟨_, List.getElem?_eq_getElem (hi.length ▸ hj)⟩
  have hhist := hi.history j
  have hcap := hi.capacity j
  rw [hb, hW, Option.map_some, Option.map_some, Option.some.injEq] at hhist hcap
  -- `close_async` has not begun, so no `NULL` is in the queue
  have hnull : s.nullAt j = [] := by simp [Exec.nullAt, Exec.closed, hpc]
  have hlen := congrArg List.length hhist
  simp only [List.length_append, List.length_map, hnull, List.length_nil, Nat.add_zero] at hlen
  have hplaced := length_placedAt_le j s.outcomes hi.outcomes
  have hreqs := hi.length_outcomes_add_pending
  rw [show s.pending.length = 1 by simp [Exec.pending, hpc]] at hreqs
  have hroom₀ := hroom b₀ (List.mem_of_getElem? hW)
  simp only [hasRoomAt, hb]
  apply decide_eq_true
  show b.items.length < b.capacity
  omega

include hn hroom hplans in
/-- With room in every queue for all the requests, each request with a host is taken at its first
offer. -/
lemma FirstOffers.step (hi : Exec.Inv E W c₀ s) (hf : FirstOffers s) {e : Event} {s' : Exec ρ η}
    (h : s.step e = some s') : FirstOffers s' := by
  have hpos : 0 < W.length := List.length_pos_iff.2 hn
  cases e with
  | session =>
    cases hpc : s.pc with
    | dequeue =>
      cases he : s.entries with
      | nil =>
        simp only [Exec.step, Exec.sessionStep, hpc, he] at h
        cases h
        exact ⟨hf.outcomes, hf.offers, hf.tried⟩
      | cons entry entries =>
        cases entry with
        | none =>
          simp only [Exec.step, Exec.sessionStep, hpc, he] at h
          cases h
          exact ⟨hf.outcomes, hf.offers, hf.tried⟩
        | some req =>
          simp only [Exec.step, Exec.sessionStep, hpc, he] at h
          cases h
          exact ⟨hf.outcomes, hf.offers, hf.tried⟩
    | nextHost r plan =>
      cases plan with
      | nil =>
        -- every request has a host
        have hmem := hi.mem_of_pending (x := (r, s.tried ++ [])) (by simp [Exec.pending, hpc])
        exact absurd (by rw [hf.tried]; rfl) (hplans _ hmem)
      | cons host rest =>
        simp only [Exec.step, Exec.sessionStep, hpc] at h
        cases h
        exact ⟨hf.outcomes, hf.offers, hf.tried⟩
    | offer r host rest start i =>
      obtain ⟨-, -, hoffers⟩ :=
        show Exec.PcOk W.length s (.offer r host rest start i) from hpc ▸ hi.pc
      -- no offer of this request yet: the loop is at its first worker
      have hi0 : i = 0 := by
        rw [hf.offers, hf.tried, List.flatMap_nil, List.nil_append, eq_comm,
          List.take_eq_nil_iff] at hoffers
        rcases hoffers with h0 | hnil
        · exact h0
        · rw [← List.length_eq_zero_iff, length_refusedPass] at hnil
          omega
      subst hi0
      simp only [Exec.step, Exec.sessionStep, hpc] at h
      rw [if_pos (by rw [hi.length]; exact hpos)] at h
      cases hq : ioWorkerExecute s.queues (start % s.queues.length) (r, host) with
      | some queues =>
        rw [hq] at h
        cases h
        refine ⟨fun o ho x hx => ?_, rfl, rfl⟩
        rcases List.mem_append.1 ho with ho | ho
        · exact hf.outcomes o ho x hx
        · rw [List.mem_singleton] at ho
          subst ho
          simp only [hf.offers, List.nil_append, List.mem_singleton] at hx
          rw [hx]
      | none =>
        -- the worker's queue has room, so `IOWorker::execute` cannot refuse
        have hroomAt :=
          hi.hasRoomAt_of_offer hroom hpc (Nat.mod_lt start (by rw [hi.length]; exact hpos))
        rw [ioWorkerExecute_eq_none_iff.1 hq] at hroomAt
        cases hroomAt
    | closeWorker j =>
      cases hb : s.queues[j]? with
      | none =>
        simp only [Exec.step, Exec.sessionStep, hpc, hb] at h
        cases h
        exact ⟨hf.outcomes, hf.offers, hf.tried⟩
      | some b =>
        cases hb' : b.enqueue none with
        | some b' =>
          simp only [Exec.step, Exec.sessionStep, hpc, hb, hb'] at h
          cases h
          exact ⟨hf.outcomes, hf.offers, hf.tried⟩
        | none =>
          simp only [Exec.step, Exec.sessionStep, hpc, hb, hb'] at h
          cases h
          exact hf
    | done => simp only [Exec.step, Exec.sessionStep, hpc, reduceCtorEq] at h
  | ioDequeue j =>
    cases hb : s.queues[j]? with
    | none => simp only [Exec.step, Exec.ioDequeue, hb, reduceCtorEq] at h
    | some b =>
      cases hd : b.dequeue with
      | none => simp only [Exec.step, Exec.ioDequeue, hb, hd, reduceCtorEq] at h
      | some res =>
        obtain ⟨x, b'⟩ := res
        simp only [Exec.step, Exec.ioDequeue, hb, hd] at h
        cases h
        exact ⟨hf.outcomes, hf.offers, hf.tried⟩

include hn hroom hplans in
lemma Reachable.firstOffers (hr : Reachable (Exec.init E W c₀) s) : FirstOffers s := by
  induction hr with
  | init => exact ⟨fun _ h => (nomatch h), rfl, rfl⟩
  | step _ hr h ih => exact ih.step hn hroom hplans hr.inv h

include hn hroom hplans in
/-- With room in every worker's queue for all of `E`'s requests, and a host in every plan, no
request fails, whatever the I/O threads take meanwhile, and `on_execute` deals them round robin:
the `k`-th request goes, with its plan's first host, to worker `(c₀ + k) % n` at its first offer,
and `current_io_worker_` moves one worker on per request. -/
theorem onExecute_roundRobin (hr : Reachable (Exec.init E W c₀) s) :
    (∀ (k : Nat) (o : Outcome ρ η), s.outcomes[k]? = some o → o.error = none ∧
      ∃ host rest, o.plan = host :: rest ∧
        o.offers = [⟨o.request, host, (c₀ + k) % W.length, true⟩]) ∧
    s.current % W.length = (c₀ + s.outcomes.length) % W.length := by
  have hi := hr.inv
  have hf := hr.firstOffers hn hroom hplans
  have hpos : 0 < W.length := List.length_pos_iff.2 hn
  -- each request that ended was taken at its first offer
  have hfirst : ∀ o ∈ s.outcomes, o.error = none ∧ ∃ host rest, o.plan = host :: rest ∧
      o.next = (o.start + 1) % W.length ∧
      o.offers = [⟨o.request, host, o.start % W.length, true⟩] := fun o ho =>
    (hi.outcomes o ho).first_offer hpos (hplans _ (hi.entry_mem ho)) (hf.outcomes o ho)
  -- and the workers they started at follow on from `c₀`
  have hnext : ∀ o ∈ s.outcomes, o.next = (o.start + 1) % W.length := fun o ho => by
    obtain ⟨-, -, -, -, h, -⟩ := hfirst o ho
    exact h
  obtain ⟨hstarts, hcurrent⟩ :=
    chain_mod Outcome.start Outcome.next W.length s.outcomes c₀ s.current hnext hi.chain
  refine ⟨fun k o hk => ?_, hcurrent⟩
  obtain ⟨herr, host, rest, hplan, -, hoffers⟩ := hfirst o (List.mem_of_getElem? hk)
  refine ⟨herr, host, rest, hplan, ?_⟩
  rw [hoffers, hstarts k o hk]

/-- Two empty workers of two slots each. -/
def freeWorkers : List (BoundedQueue (Option (Nat × Nat))) :=
  [BoundedQueue.empty 2, BoundedQueue.empty 2]

/-- Two requests, the second with two hosts. -/
def freeEntries : List (Option (Nat × List Nat)) := [some (1, [10]), some (2, [20, 21])]

/-- From worker 1, I/O thread 1 taking the first request before the second is dealt. -/
theorem onExecute_roundRobin_freeWorkers :
    ∃ s, (Exec.init freeEntries freeWorkers 1).run
        [.session, .session, .session, .ioDequeue 1, .session, .session, .session, .session] =
        some s ∧
      s.pc = .done ∧ (s.outcomes.map fun o => o.offers.map Offer.worker) = [[1], [0]] ∧
      (∀ (k : Nat) (o : Outcome Nat Nat), s.outcomes[k]? = some o → o.error = none ∧
        ∃ host rest, o.plan = host :: rest ∧
          o.offers = [⟨o.request, host, (1 + k) % freeWorkers.length, true⟩]) ∧
      s.current % freeWorkers.length = (1 + s.outcomes.length) % freeWorkers.length :=
  have hrun : (Exec.init freeEntries freeWorkers 1).run
      [.session, .session, .session, .ioDequeue 1, .session, .session, .session, .session] =
      some _ := rfl
  ⟨_, hrun, rfl, rfl,
    onExecute_roundRobin (List.cons_ne_nil _ _) (by decide) (by decide) (Reachable.run .init hrun)⟩

end RoundRobin

end CassandraDriver.Session.OnExecute
