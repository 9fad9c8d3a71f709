import Mathlib.Logic.Function.Iterate

/-!
# Requests waiting for a connection

`Pool::write` hands a request to the least busy connection of a pool. When no connection has a
free stream it queues the request in `pending_requests_`, and the pool registers in its I/O
worker's `pools_pending_request_processing_`; `is_pending_request_processing_` keeps it from
registering twice. On every loop iteration `IOWorker::on_check` runs
`process_pending_requests` on each registered pool, over the vector as it was when the round
began, and then swaps in the pools that still have requests waiting.

The model holds the pools of one I/O worker by id: each with its connections (their requests in
flight and stream ids), the connections being opened, its queue and its flag; the worker's
vector; and each request's query plan (the pools it has left to try, the current one first) and
whether it was cancelled. The events are the worker's: a request execution starting
(`RequestExecution::execute`), an `on_check` round, a connection becoming ready or closing, a
response freeing a stream, a cancellation, `Pool::close` and the pool's destruction, which
happens once nothing holds it.

* Every pool with requests waiting is registered, once, after every run (`Registered.run`). A
  pool registered during a round would be lost by the swap, but no round registers one:
  `borrow_connection` only returns a connection with a free stream, so the loop's
  `internal_write` never fails and its `on_retry_next_host` is never reached.
* A pool that closes with requests waiting keeps them for good. It has no connection and spawns
  none, so every round stops at the first live request and the pool stays registered; and
  `~Pool`, which would hand the requests back, never runs while the vector holds the pool. Only
  a cancellation takes such a request out (`waiting_run`).
-/

namespace CassandraDriver

namespace ConnectionPool

/-- The settings of `Config` a pool reads. -/
structure Config where
  coreConnectionsPerHost : Nat
  maxConnectionsPerHost : Nat
  maxConcurrentCreation : Nat
  maxConcurrentRequestsThreshold : Nat
  deriving DecidableEq, Repr

/-- `Pool::PoolState`. The I/O worker connects a pool when it adds it, so the states before
`connect` are left out. -/
inductive PoolState
  | connecting
  | ready
  | closing
  | closed
  deriving DecidableEq, Repr

/-- A connection of a pool: its requests in flight, its stream ids, and whether it is ready (one
the pool has closed is not). -/
structure Connection where
  pendingRequestCount : Nat
  maxStreams : Nat
  isReady : Bool := true
  deriving DecidableEq, Repr

/-- `Connection::available_streams`. -/
def Connection.availableStreams (c : Connection) : Nat := c.maxStreams - c.pendingRequestCount

/-- The index `std::min_element` finds with `least_busy_comp`: the first connection with the
fewest requests in flight. -/
def leastBusy : List Connection → Nat
  | [] => 0
  | c :: cs =>
    if (cs.getD (leastBusy cs) c).pendingRequestCount < c.pendingRequestCount then
      leastBusy cs + 1
    else 0

/-- A pool: its state, its connections, how many are being opened, the requests waiting for a
connection, and `is_pending_request_processing_`. -/
structure Pool where
  state : PoolState := .connecting
  connections : List Connection := []
  pendingConnections : Nat := 0
  pendingRequests : List Nat := []
  isPendingRequestProcessing : Bool := false
  deriving DecidableEq, Repr

namespace Pool

/-- `Pool::spawn_connection`: a connection starts to open, unless the pool is closing. -/
def spawnConnection (pool : Pool) : Pool :=
  if pool.state ≠ .closing ∧ pool.state ≠ .closed then
    { pool with pendingConnections := pool.pendingConnections + 1 }
  else pool

/-- `Pool::maybe_spawn_connection`. -/
def maybeSpawnConnection (config : Config) (pool : Pool) : Pool :=
  if pool.pendingConnections ≥ config.maxConcurrentCreation then pool
  else if pool.connections.length + pool.pendingConnections ≥ config.maxConnectionsPerHost then pool
  else if pool.state ≠ .ready then pool
  else pool.spawnConnection

/-- `Pool::find_least_busy`: the least busy connection, if it is ready and has a free stream. -/
def findLeastBusy (pool : Pool) : Option Nat :=
  match pool.connections[leastBusy pool.connections]? with
  | some c => if c.isReady ∧ 0 < c.availableStreams then some (leastBusy pool.connections) else none
  | none => none

/-- `Pool::borrow_connection`: the connection a request is written to, if any, and the pool after
the connections it starts to open. -/
def borrowConnection (config : Config) (pool : Pool) : Option Nat × Pool :=
  if pool.connections = [] then
    (none, (maybeSpawnConnection config)^[config.coreConnectionsPerHost] pool)
  else
    match pool.findLeastBusy with
    | some i =>
      match pool.connections[i]? with
      | some c =>
        if c.pendingRequestCount ≥ config.maxConcurrentRequestsThreshold then
          (some i, maybeSpawnConnection config pool)
        else (some i, pool)
      | none => (some i, pool)
    | none => (none, maybeSpawnConnection config pool)

/-- `Pool::maybe_notify_ready`: a connecting pool is ready once no connection is being opened,
even if all of them failed. -/
def maybeNotifyReady (pool : Pool) : Pool :=
  if pool.state = .connecting ∧ pool.pendingConnections = 0 then { pool with state := .ready }
  else pool

/-- `Pool::maybe_close`: a closing pool is closed once it has no connection left. -/
def maybeClose (pool : Pool) : Pool :=
  if pool.state = .closing ∧ pool.connections = [] ∧ pool.pendingConnections = 0 then
    { pool with state := .closed }
  else pool

/-- `Pool::close`: the pool closes its connections, which leave it as each reports closing. -/
def close (pool : Pool) : Pool :=
  maybeClose <|
    if pool.state ≠ .closing ∧ pool.state ≠ .closed then
      { pool with
        state := .closing
        connections := pool.connections.map fun c => { c with isReady := false } }
    else pool

/-- `Pool::on_ready`: a connection being opened is ready, with `maxStreams` stream ids. -/
def onReady (pool : Pool) (maxStreams : Nat) : Pool :=
  maybeNotifyReady
    { pool with
      pendingConnections := pool.pendingConnections - 1
      connections := pool.connections ++ [{ pendingRequestCount := 0, maxStreams }] }

/-- `Pool::on_close`: a connection has closed (`none`: one being opened). After a timeout the
pool reconnects it if others are left; a defunct connection closes the pool. -/
def onClose (pool : Pool) (connection : Option Nat) (defunct timeoutError : Bool) : Pool :=
  let pool := match connection with
    | none => { pool with pendingConnections := pool.pendingConnections - 1 }
    | some i => { pool with connections := pool.connections.eraseIdx i }
  if timeoutError ∧ pool.connections ≠ [] then pool.maybeNotifyReady
  else if defunct then pool.close
  else pool.maybeNotifyReady.maybeClose

end Pool

/-- An I/O worker: its pools by id, `pools_pending_request_processing_`, and the request
executions it runs, each with its query plan from the current host on, whether it has started,
and whether it is cancelled; and which pools have been destroyed. -/
structure IOWorker where
  config : Config
  pools : Nat → Pool
  poolsPendingRequestProcessing : List Nat := []
  plans : Nat → List Nat := fun _ => []
  started : Nat → Bool := fun _ => false
  cancelled : Nat → Bool := fun _ => false
  destroyed : Nat → Bool := fun _ => false

/-- What happens on the I/O worker's loop. -/
inductive Event
  | execute (request : Nat) (plan : List Nat)
  | check
  | connectionReady (pool maxStreams : Nat)
  | connectionClosed (pool : Nat) (connection : Option Nat) (defunct timeoutError : Bool)
  | responseReceived (pool connection : Nat)
  | cancel (request : Nat)
  | close (pool : Nat)
  | destroy (pool : Nat)

namespace IOWorker

/-- Pool `p` becomes `pool`. -/
def setPool (w : IOWorker) (p : Nat) (pool : Pool) : IOWorker :=
  { w with pools := Function.update w.pools p pool }

/-- Request `r`'s query plan becomes `plan`. -/
def setPlan (w : IOWorker) (r : Nat) (plan : List Nat) : IOWorker :=
  { w with plans := Function.update w.plans r plan }

/-- `IOWorker::add_pending_request_processing`. -/
def addPendingRequestProcessing (w : IOWorker) (p : Nat) : IOWorker :=
  { w with poolsPendingRequestProcessing := w.poolsPendingRequestProcessing ++ [p] }

/-- `Pool::wait_for_connection` of pool `p`: a request that is not cancelled is queued, and the
pool registers unless its flag says it is registered. -/
def waitForConnection (w : IOWorker) (p r : Nat) : IOWorker :=
  if w.cancelled r then w
  else
    let pool := w.pools p
    let w' := w.setPool p
      { pool with pendingRequests := pool.pendingRequests ++ [r], isPendingRequestProcessing := true }
    if pool.isPendingRequestProcessing then w' else w'.addPendingRequestProcessing p

/-- `Pool::internal_write` of request `r` to connection `i` of pool `p`, `none` when
`Connection::write` finds no free stream id. A cancelled request is not written and counts as
taken. -/
def internalWrite (w : IOWorker) (p i r : Nat) : Option IOWorker :=
  if w.cancelled r then some w
  else
    let pool := w.pools p
    match pool.connections[i]? with
    | some c =>
      if 0 < c.availableStreams then
        some (w.setPool p
          { pool with
            connections :=
              pool.connections.set i { c with pendingRequestCount := c.pendingRequestCount + 1 } })
      else none
    | none => none

/-- `Pool::write` of request `r` to pool `p`: whether the pool took it (written, or queued to wait
for a connection). -/
def write (w : IOWorker) (p r : Nat) : Bool × IOWorker :=
  match (w.pools p).borrowConnection w.config with
  | (some i, pool) =>
    match (w.setPool p pool).internalWrite p i r with
    | some w' => (true, w')
    | none => (false, w.setPool p pool)
  | (none, pool) => (true, (w.setPool p pool).waitForConnection p r)

/-- `IOWorker::retry` of request `r` from the current host of its plan on: the first ready pool
that takes it, or `on_error` when the plan runs out. -/
def retry (w : IOWorker) (r : Nat) : List Nat → IOWorker
  | [] => w.setPlan r []
  | p :: ps =>
    if (w.pools p).state = .ready then
      if (w.write p r).1 then (w.write p r).2.setPlan r (p :: ps)
      else (w.write p r).2.retry r ps
    else w.retry r ps

/-- `RequestExecution::on_retry_next_host`: the next host of the plan, unless the request is
cancelled. -/
def onRetryNextHost (w : IOWorker) (r : Nat) : IOWorker :=
  if w.cancelled r then w.setPlan r (w.plans r).tail else w.retry r (w.plans r).tail

/-- The body of `process_pending_requests` for a request given connection `i`: written, or handed
back when `internal_write` fails. -/
def internalWriteOrRetry (w : IOWorker) (p i r : Nat) : IOWorker :=
  match w.internalWrite p i r with
  | some w' => w'
  | none => w.onRetryNextHost r

/-- The loop of `Pool::process_pending_requests` over the requests queued when it began, with
how far its iterator got: cancelled requests are passed over, and the loop stops at the first
request it finds no connection for. -/
def processLoop (w : IOWorker) (p : Nat) : List Nat → IOWorker × Nat
  | [] => (w, 0)
  | r :: rs =>
    if w.cancelled r then
      let x := w.processLoop p rs
      (x.1, x.2 + 1)
    else
      match (w.pools p).borrowConnection w.config with
      | (none, pool) => (w.setPool p pool, 0)
      | (some i, pool) =>
        let x := ((w.setPool p pool).internalWriteOrRetry p i r).processLoop p rs
        (x.1, x.2 + 1)

/-- `Pool::process_pending_requests` of pool `p`: the requests passed are erased, and the flag
and the result say whether any are left. -/
def processPendingRequests (w : IOWorker) (p : Nat) : Bool × IOWorker :=
  let x := w.processLoop p (w.pools p).pendingRequests
  let pool := x.1.pools p
  let pending := pool.pendingRequests.drop x.2
  (!pending.isEmpty,
    x.1.setPool p
      { pool with pendingRequests := pending, isPendingRequestProcessing := !pending.isEmpty })

/-- The loop of `IOWorker::on_check` over the pools registered when it began, with the pools that
still need processing. -/
def checkLoop (w : IOWorker) : List Nat → IOWorker × List Nat
  | [] => (w, [])
  | p :: ps =>
    let x := w.processPendingRequests p
    let y := x.2.checkLoop ps
    (y.1, if x.1 then p :: y.2 else y.2)

/-- `IOWorker::on_check`: the round, then the swap. A pool registered during the round is in
the vector the loop does not reach, and the swap drops it. -/
def onCheck (w : IOWorker) : IOWorker :=
  { (w.checkLoop w.poolsPendingRequestProcessing).1 with
    poolsPendingRequestProcessing := (w.checkLoop w.poolsPendingRequestProcessing).2 }

/-- `Pool::~Pool`: each request still queued is handed back. -/
def destroyPool (w : IOWorker) (p : Nat) : IOWorker :=
  { (w.pools p).pendingRequests.foldl onRetryNextHost w with
    destroyed := Function.update w.destroyed p true }

/-- One event, `none` where it cannot happen: a request starts once; only a pool being connected
or ready gets a new connection; a connection closes or answers only if it is there; and a pool is
destroyed once closed and out of the vector, its last holder. -/
def step (w : IOWorker) : Event → Option IOWorker
  | .execute r plan =>
    if w.started r then none
    else some ({ w with started := Function.update w.started r true }.retry r plan)
  | .check => some w.onCheck
  | .connectionReady p maxStreams =>
    if 0 < (w.pools p).pendingConnections ∧
        ((w.pools p).state = .connecting ∨ (w.pools p).state = .ready) then
      some (w.setPool p ((w.pools p).onReady maxStreams))
    else none
  | .connectionClosed p connection defunct timeoutError =>
    let present : Bool := match connection with
      | none => 0 < (w.pools p).pendingConnections
      | some i => i < (w.pools p).connections.length
    if present then some (w.setPool p ((w.pools p).onClose connection defunct timeoutError))
    else none
  | .responseReceived p i =>
    match (w.pools p).connections[i]? with
    | some c =>
      if 0 < c.pendingRequestCount then
        some (w.setPool p
          { w.pools p with
            connections := (w.pools p).connections.set i
              { c with pendingRequestCount := c.pendingRequestCount - 1 } })
      else none
    | none => none
  | .cancel r => some { w with cancelled := Function.update w.cancelled r true }
  | .close p => some (w.setPool p (w.pools p).close)
  | .destroy p =>
    if (w.pools p).state = .closed ∧ p ∉ w.poolsPendingRequestProcessing ∧ w.destroyed p = false then
      some (w.destroyPool p)
    else none

/-- The events in order, `none` if one cannot happen. -/
def run (w : IOWorker) : List Event → Option IOWorker
  | [] => some w
  | e :: es => (w.step e).bind fun w => w.run es

end IOWorker

/-! ### Small lemmas of the operations -/

namespace Pool

variable {pool : Pool} {config : Config}

lemma maybeSpawnConnection_of_ne_ready (h : pool.state ≠ .ready) :
    pool.maybeSpawnConnection config = pool := by
  unfold maybeSpawnConnection
  simp [h]

/-- A pool that is not ready and has no connection gives none and opens none. -/
lemma borrowConnection_of_ne_ready (hc : pool.connections = []) (hs : pool.state ≠ .ready) :
    pool.borrowConnection config = (none, pool) := by
  rw [borrowConnection, if_pos hc,
    Function.iterate_fixed (maybeSpawnConnection_of_ne_ready hs)]

lemma close_of_closed (h : pool.state = .closed) : pool.close = pool := by
  simp [close, maybeClose, h]

end Pool

namespace IOWorker

variable {w w' w'' : IOWorker} {p q r : Nat}

@[simp] lemma setPool_pools_self (pool : Pool) : (w.setPool p pool).pools p = pool := by
  simp [setPool]

@[simp] lemma setPool_pools_of_ne (pool : Pool) (h : q ≠ p) : (w.setPool p pool).pools q = w.pools q := by
  simp [setPool, Function.update_of_ne h]

@[simp] lemma setPool_self : w.setPool p (w.pools p) = w := by
  simp [setPool]

/-! ### A pool that is not ready is left alone -/

/-- What an operation that writes only to ready pools keeps of pool `p`: the pool itself, every
registration, and the cancellations. -/
structure Keeps (p : Nat) (w w' : IOWorker) : Prop where
  config_eq : w'.config = w.config
  pool_eq : w'.pools p = w.pools p
  registered : w.poolsPendingRequestProcessing ⊆ w'.poolsPendingRequestProcessing
  cancelled_eq : w'.cancelled = w.cancelled

lemma keeps_refl (p : Nat) (w : IOWorker) : Keeps p w w := ⟨rfl, rfl, List.Subset.refl _, rfl⟩

lemma Keeps.trans (h : Keeps p w w') (h' : Keeps p w' w'') : Keeps p w w'' :=
  ⟨h'.config_eq.trans h.config_eq, h'.pool_eq.trans h.pool_eq, List.Subset.trans h.registered h'.registered,
    h'.cancelled_eq.trans h.cancelled_eq⟩

lemma Keeps.not_ready (h : Keeps p w w') (hp : (w.pools p).state ≠ .ready) :
    (w'.pools p).state ≠ .ready := by
  rw [h.pool_eq]
  exact hp

lemma keeps_setPool (pool : Pool) (h : p ≠ q) : Keeps p w (w.setPool q pool) :=
  ⟨rfl, setPool_pools_of_ne pool h, List.Subset.refl _, rfl⟩

lemma keeps_setPlan (r : Nat) (plan : List Nat) : Keeps p w (w.setPlan r plan) :=
  ⟨rfl, rfl, List.Subset.refl _, rfl⟩

lemma keeps_waitForConnection (r : Nat) (h : p ≠ q) : Keeps p w (w.waitForConnection q r) := by
  dsimp only [waitForConnection]
  split
  · exact keeps_refl p w
  · split
    · exact keeps_setPool _ h
    · exact (keeps_setPool _ h).trans ⟨rfl, rfl, List.subset_append_left _ _, rfl⟩

lemma keeps_internalWrite {i : Nat} (h : p ≠ q) (hw : w.internalWrite q i r = some w') :
    Keeps p w w' := by
  dsimp only [internalWrite] at hw
  split at hw
  · cases hw
    exact keeps_refl p w
  · split at hw
    · split at hw
      · cases hw
        exact keeps_setPool _ h
      · cases hw
    · cases hw

lemma keeps_write (r : Nat) (h : p ≠ q) : Keeps p w (w.write q r).2 := by
  unfold write
  split
  · split
    · rename_i hw
      exact (keeps_setPool _ h).trans (keeps_internalWrite h hw)
    · exact keeps_setPool _ h
  · exact (keeps_setPool _ h).trans (keeps_waitForConnection r h)

/-- A retry writes only to ready pools. -/
lemma keeps_retry (r : Nat) :
    ∀ (plan : List Nat) {w : IOWorker}, (w.pools p).state ≠ .ready → Keeps p w (w.retry r plan)
  | [], w, _ => keeps_setPlan r []
  | q :: qs, w, hp => by
    rw [retry]
    split
    · rename_i hq
      have hk := keeps_write (w := w) r fun (hpq : p = q) => hp (by rw [hpq]; exact hq)
      split
      · exact hk.trans (keeps_setPlan r _)
      · exact hk.trans (keeps_retry r qs (hk.not_ready hp))
    · exact keeps_retry r qs hp

lemma keeps_onRetryNextHost (r : Nat) (hp : (w.pools p).state ≠ .ready) :
    Keeps p w (w.onRetryNextHost r) := by
  unfold onRetryNextHost
  split
  · exact keeps_setPlan r _
  · exact keeps_retry r _ hp

lemma keeps_processLoop (h : p ≠ q) :
    ∀ (rs : List Nat) {w : IOWorker}, (w.pools p).state ≠ .ready → Keeps p w (w.processLoop q rs).1
  | [], w, _ => keeps_refl p w
  | r :: rs, w, hp => by
    simp only [processLoop]
    split
    · exact keeps_processLoop h rs hp
    · split
      · exact keeps_setPool _ h
      · rename_i i pool _
        have hk : Keeps p w ((w.setPool q pool).internalWriteOrRetry q i r) := by
          have hk₁ := keeps_setPool (w := w) pool h
          unfold internalWriteOrRetry
          split
          · rename_i hw
            exact hk₁.trans (keeps_internalWrite h hw)
          · exact hk₁.trans (keeps_onRetryNextHost r (hk₁.not_ready hp))
        exact hk.trans (keeps_processLoop h rs (hk.not_ready hp))

lemma keeps_processPendingRequests (hp : (w.pools p).state ≠ .ready) (h : p ≠ q) :
    Keeps p w (w.processPendingRequests q).2 :=
  (keeps_processLoop h _ hp).trans (keeps_setPool _ h)

lemma keeps_foldl_onRetryNextHost :
    ∀ (rs : List Nat) {w : IOWorker}, (w.pools p).state ≠ .ready →
      Keeps p w (rs.foldl onRetryNextHost w)
  | [], w, _ => keeps_refl p w
  | r :: rs, w, hp =>
    have hk := keeps_onRetryNextHost (w := w) r hp
    hk.trans (keeps_foldl_onRetryNextHost rs (hk.not_ready hp))

lemma keeps_destroyPool (q : Nat) (hp : (w.pools p).state ≠ .ready) : Keeps p w (w.destroyPool q) :=
  have hk := keeps_foldl_onRetryNextHost (w.pools q).pendingRequests hp
  ⟨hk.config_eq, hk.pool_eq, hk.registered, hk.cancelled_eq⟩

/-! ### Requests left in a closed pool -/

/-- Request `r` waits in pool `p`, which is closed with no connection left, and is not
cancelled. -/
structure Waiting (p r : Nat) (w : IOWorker) : Prop where
  closed : (w.pools p).state = .closed
  connections_eq : (w.pools p).connections = []
  pendingConnections_eq : (w.pools p).pendingConnections = 0
  mem_pendingRequests : r ∈ (w.pools p).pendingRequests
  not_cancelled : w.cancelled r = false

lemma Waiting.not_ready (h : Waiting p r w) : (w.pools p).state ≠ .ready := by
  rw [h.closed]
  decide

lemma Waiting.of_eq (h : Waiting p r w) (hpool : w'.pools p = w.pools p)
    (hc : w'.cancelled r = w.cancelled r) : Waiting p r w' := by
  obtain ⟨h₁, h₂, h₃, h₄, h₅⟩ := h
  rw [← hpool] at h₁ h₂ h₃ h₄
  rw [← hc] at h₅
  exact ⟨h₁, h₂, h₃, h₄, h₅⟩

lemma Waiting.keeps (h : Waiting p r w) (hk : Keeps p w w') : Waiting p r w' :=
  h.of_eq hk.pool_eq (by rw [hk.cancelled_eq])

/-- The loop on a pool with no connection passes the cancelled requests in front and stops at the
first live one, changing nothing: every live request stays queued. -/
lemma processLoop_of_ne_ready (hc : (w.pools p).connections = []) (hs : (w.pools p).state ≠ .ready) :
    ∀ rs : List Nat, ∃ n, w.processLoop p rs = (w, n) ∧
      ∀ r ∈ rs, w.cancelled r = false → r ∈ rs.drop n
  | [] => ⟨0, rfl, fun _ h _ => h⟩
  | r :: rs => by
    by_cases hr : w.cancelled r = true
    · obtain ⟨n, hloop, hmem⟩ := processLoop_of_ne_ready hc hs rs
      refine ⟨n + 1, by simp only [processLoop, if_pos hr, hloop], fun r' hr' hlive => ?_⟩
      rcases List.mem_cons.1 hr' with rfl | hr'
      · rw [hr] at hlive
        cases hlive
      · exact hmem r' hr' hlive
    · refine ⟨0, ?_, fun r' hr' _ => hr'⟩
      simp only [processLoop, if_neg hr, Pool.borrowConnection_of_ne_ready hc hs, setPool_self]

lemma Waiting.processPendingRequests (h : Waiting p r w) :
    (w.processPendingRequests p).1 = true ∧ Waiting p r (w.processPendingRequests p).2 := by
  obtain ⟨n, hloop, hmem⟩ :=
    processLoop_of_ne_ready h.connections_eq h.not_ready (w.pools p).pendingRequests
  have hr := hmem r h.mem_pendingRequests h.not_cancelled
  -- the request is still queued, so the flag stays set
  have hne : ((w.pools p).pendingRequests.drop n).isEmpty = false := by
    cases hd : (w.pools p).pendingRequests.drop n with
    | nil =>
      rw [hd] at hr
      cases hr
    | cons _ _ => rfl
  simp only [IOWorker.processPendingRequests, hloop, hne, Bool.not_false, true_and]
  refine ⟨?_, ?_, ?_, ?_, h.not_cancelled⟩ <;> simp only [setPool_pools_self]
  exacts [h.closed, h.connections_eq, h.pendingConnections_eq, hr]

/-- Through a round, the request stays in its pool, and the pool stays in the vector: its
processing says requests are left. -/
lemma Waiting.checkLoop (ps : List Nat) (h : Waiting p r w) :
    Waiting p r (w.checkLoop ps).1 ∧ (p ∈ ps → p ∈ (w.checkLoop ps).2) := by
  induction ps generalizing w with
  | nil => exact ⟨h, fun hp => hp⟩
  | cons q ps ih =>
    simp only [IOWorker.checkLoop]
    by_cases hq : q = p
    · subst hq
      obtain ⟨hmore, hw⟩ := h.processPendingRequests
      refine ⟨(ih hw).1, fun _ => ?_⟩
      rw [if_pos hmore]
      exact List.mem_cons_self
    · have hk := keeps_processPendingRequests h.not_ready (Ne.symm hq)
      obtain ⟨hw, hmem⟩ := ih (h.keeps hk)
      refine ⟨hw, fun hp => ?_⟩
      have hps : p ∈ ps := (List.mem_cons.1 hp).resolve_left (Ne.symm hq)
      split
      · exact List.mem_cons_of_mem q (hmem hps)
      · exact hmem hps

lemma Waiting.onCheck (h : Waiting p r w) (hreg : p ∈ w.poolsPendingRequestProcessing) :
    Waiting p r w.onCheck ∧ p ∈ w.onCheck.poolsPendingRequestProcessing :=
  ⟨(h.checkLoop w.poolsPendingRequestProcessing).1.of_eq rfl rfl,
    (h.checkLoop w.poolsPendingRequestProcessing).2 hreg⟩

/-- Every event but the request's cancellation leaves it waiting in its registered pool: the
other events act on pools with connections, on ready pools, or on pools out of the vector. -/
lemma Waiting.step (h : Waiting p r w) (hreg : p ∈ w.poolsPendingRequestProcessing) {e : Event}
    (he : e ≠ .cancel r) (hstep : w.step e = some w') :
    Waiting p r w' ∧ p ∈ w'.poolsPendingRequestProcessing := by
  cases e with
  | execute r' plan =>
    simp only [IOWorker.step, Option.ite_none_left_eq_some, Option.some.injEq] at hstep
    obtain ⟨-, rfl⟩ := hstep
    have hk := keeps_retry (w := { w with started := Function.update w.started r' true }) r' plan
      h.not_ready
    exact ⟨h.keeps ⟨hk.1, hk.2, hk.3, hk.4⟩, hk.registered hreg⟩
  | check =>
    cases hstep
    exact h.onCheck hreg
  | connectionReady q maxStreams =>
    simp only [IOWorker.step, Option.ite_none_right_eq_some, Option.some.injEq] at hstep
    obtain ⟨hcond, rfl⟩ := hstep
    -- a closed pool gets no new connection
    have hq : p ≠ q := by
      rintro rfl
      simp [h.closed] at hcond
    exact ⟨h.keeps (keeps_setPool _ hq), hreg⟩
  | connectionClosed q connection defunct timeoutError =>
    simp only [IOWorker.step, Option.ite_none_right_eq_some, Option.some.injEq] at hstep
    obtain ⟨hpresent, rfl⟩ := hstep
    -- nor has it a connection to close
    have hq : p ≠ q := by
      rintro rfl
      cases connection <;> simp [h.pendingConnections_eq, h.connections_eq] at hpresent
    exact ⟨h.keeps (keeps_setPool _ hq), hreg⟩
  | responseReceived q i =>
    simp only [IOWorker.step] at hstep
    split at hstep
    · rename_i c hc
      have hq : p ≠ q := by
        rintro rfl
        simp [h.connections_eq] at hc
      rw [Option.ite_none_right_eq_some, Option.some.injEq] at hstep
      obtain ⟨-, rfl⟩ := hstep
      exact ⟨h.keeps (keeps_setPool _ hq), hreg⟩
    · cases hstep
  | cancel r' =>
    cases hstep
    have hr : r ≠ r' := fun hr => he (hr ▸ rfl)
    exact ⟨h.of_eq rfl (Function.update_of_ne hr _ _), hreg⟩
  | close q =>
    cases hstep
    by_cases hq : p = q
    · subst hq
      rw [Pool.close_of_closed h.closed, setPool_self]
      exact ⟨h, hreg⟩
    · exact ⟨h.keeps (keeps_setPool _ hq), hreg⟩
  | destroy q =>
    simp only [IOWorker.step, Option.ite_none_right_eq_some, Option.some.injEq] at hstep
    obtain ⟨-, rfl⟩ := hstep
    have hk := keeps_destroyPool q h.not_ready
    exact ⟨h.keeps hk, hk.registered hreg⟩

/-- A request left in a closed pool stays there, with the pool registered, on every run that
does not cancel it: it is never written, and never handed back to try another host. -/
theorem waiting_run (hreg : p ∈ w.poolsPendingRequestProcessing) (h : Waiting p r w) :
    ∀ {es : List Event} {w' : IOWorker}, (∀ e ∈ es, e ≠ .cancel r) → w.run es = some w' →
      Waiting p r w' ∧ p ∈ w'.poolsPendingRequestProcessing := by
  intro es
  induction es generalizing w with
  | nil =>
    intro w' _ hrun
    cases hrun
    exact ⟨h, hreg⟩
  | cons e es ih =>
    intro w' hes hrun
    obtain ⟨w₁, h₁, h₂⟩ := Option.bind_eq_some_iff.1 hrun
    obtain ⟨hw₁, hreg₁⟩ := h.step hreg (hes e List.mem_cons_self) h₁
    exact ih hreg₁ hw₁ (fun e' he' => hes e' (List.mem_cons_of_mem e he')) h₂

/-- Pool `0` has one connection with all its streams in use; pool `1` has one with all free. A
request planned for both waits in pool `0`; the connection fails and pool `0` closes. On every
later run that does not cancel it, the request stays in pool `0`'s queue, never tried on pool
`1`. -/
theorem closedPool_keepsRequest :
    ∃ w,
      ({ config := ⟨1, 1, 1, 100⟩,
         pools := fun p =>
           if p = 0 then { state := .ready, connections := [⟨128, 128, true⟩] }
           else { state := .ready, connections := [⟨0, 128, true⟩] } } : IOWorker).run
          [.execute 0 [0, 1], .connectionClosed 0 (some 0) true false, .check] = some w ∧
      ∀ es w', (∀ e ∈ es, e ≠ .cancel 0) → w.run es = some w' →
        0 ∈ (w'.pools 0).pendingRequests ∧ (w'.pools 0).state = .closed := by
  refine ⟨_, rfl, fun es w' hes hrun => ?_⟩
  have h := (waiting_run (p := 0) (r := 0) (by decide) ⟨by decide, by decide, by decide, by decide, by decide⟩ hes
    hrun).1
  exact ⟨h.mem_pendingRequests, h.closed⟩

end IOWorker

/-! ### Every pool with requests waiting is registered -/

namespace Pool

/-- Two pools with the same queue and the same flag. -/
def SameQueue (pool pool' : Pool) : Prop :=
  pool'.pendingRequests = pool.pendingRequests ∧
    pool'.isPendingRequestProcessing = pool.isPendingRequestProcessing

variable {pool pool' : Pool} {config : Config}

lemma sameQueue_refl (pool : Pool) : pool.SameQueue pool := ⟨rfl, rfl⟩

lemma SameQueue.trans {pool'' : Pool} (h : pool.SameQueue pool') (h' : pool'.SameQueue pool'') :
    pool.SameQueue pool'' :=
  ⟨h'.1.trans h.1, h'.2.trans h.2⟩

lemma sameQueue_maybeSpawnConnection (pool : Pool) :
    pool.SameQueue (pool.maybeSpawnConnection config) := by
  unfold maybeSpawnConnection spawnConnection
  repeat' split
  all_goals exact ⟨rfl, rfl⟩

lemma maybeSpawnConnection_connections (pool : Pool) :
    (pool.maybeSpawnConnection config).connections = pool.connections := by
  unfold maybeSpawnConnection spawnConnection
  repeat' split
  all_goals rfl

lemma sameQueue_iterate_maybeSpawnConnection (pool : Pool) (n : Nat) :
    pool.SameQueue ((maybeSpawnConnection config)^[n] pool) := by
  induction n with
  | zero => exact sameQueue_refl pool
  | succ n ih =>
    rw [Function.iterate_succ_apply']
    exact ih.trans (sameQueue_maybeSpawnConnection _)

/-- Borrowing a connection opens connections and touches no queue. -/
lemma sameQueue_of_borrowConnection {c : Option Nat}
    (h : pool.borrowConnection config = (c, pool')) : pool.SameQueue pool' := by
  unfold borrowConnection at h
  split at h
  · cases h
    exact sameQueue_iterate_maybeSpawnConnection pool _
  · split at h
    · split at h
      · split at h <;> cases h
        · exact sameQueue_maybeSpawnConnection pool
        · exact sameQueue_refl pool
      · cases h
        exact sameQueue_refl pool
    · cases h
      exact sameQueue_maybeSpawnConnection pool

lemma findLeastBusy_eq_some {i : Nat} (h : pool.findLeastBusy = some i) :
    ∃ c, pool.connections[i]? = some c ∧ 0 < c.availableStreams := by
  unfold findLeastBusy at h
  split at h
  · rename_i c hc
    split at h
    · rename_i hfree
      cases h
      exact ⟨c, hc, hfree.2⟩
    · cases h
  · cases h

/-- The connection borrowed has a free stream, and borrowing leaves the connections as they
were. -/
lemma borrowConnection_eq_some {i : Nat} (h : pool.borrowConnection config = (some i, pool')) :
    pool'.connections = pool.connections ∧
      ∃ c, pool.connections[i]? = some c ∧ 0 < c.availableStreams := by
  unfold borrowConnection at h
  split at h
  · cases h
  · split at h
    · rename_i j hj
      have hconn : pool'.connections = pool.connections := by
        split at h
        · split at h <;> cases h
          · exact maybeSpawnConnection_connections pool
          · rfl
        · cases h
          rfl
      have hij : j = i := by
        split at h
        · split at h <;> cases h <;> rfl
        · cases h
          rfl
      subst hij
      exact ⟨hconn, findLeastBusy_eq_some hj⟩
    · cases h

lemma sameQueue_maybeNotifyReady (pool : Pool) : pool.SameQueue pool.maybeNotifyReady := by
  unfold maybeNotifyReady
  split <;> exact ⟨rfl, rfl⟩

lemma sameQueue_maybeClose (pool : Pool) : pool.SameQueue pool.maybeClose := by
  unfold maybeClose
  split <;> exact ⟨rfl, rfl⟩

lemma sameQueue_close (pool : Pool) : pool.SameQueue pool.close := by
  unfold close
  split
  · exact SameQueue.trans ⟨rfl, rfl⟩ (sameQueue_maybeClose _)
  · exact sameQueue_maybeClose pool

lemma sameQueue_onReady (pool : Pool) (maxStreams : Nat) : pool.SameQueue (pool.onReady maxStreams) :=
  SameQueue.trans ⟨rfl, rfl⟩ (sameQueue_maybeNotifyReady _)

lemma sameQueue_onClose (pool : Pool) (connection : Option Nat) (defunct timeoutError : Bool) :
    pool.SameQueue (pool.onClose connection defunct timeoutError) := by
  -- the connection leaves the pool, then the pool may become ready or close
  obtain ⟨pool₁, hleave, heq⟩ : ∃ pool₁, pool.SameQueue pool₁ ∧
      pool.onClose connection defunct timeoutError =
        if timeoutError ∧ pool₁.connections ≠ [] then pool₁.maybeNotifyReady
        else if defunct then pool₁.close
        else pool₁.maybeNotifyReady.maybeClose := by
    cases connection <;> refine ⟨_, ?_, rfl⟩ <;> exact ⟨rfl, rfl⟩
  rw [heq]
  split
  · exact hleave.trans (sameQueue_maybeNotifyReady _)
  · split
    · exact hleave.trans (sameQueue_close _)
    · exact (hleave.trans (sameQueue_maybeNotifyReady _)).trans (sameQueue_maybeClose _)

end Pool

namespace IOWorker

variable {w w' w'' : IOWorker} {p q r : Nat}

/-- `w'` has the registrations of `w`, and every pool its queue and flag. -/
structure SameQueues (w w' : IOWorker) : Prop where
  registered_eq : w'.poolsPendingRequestProcessing = w.poolsPendingRequestProcessing
  sameQueue : ∀ q, (w.pools q).SameQueue (w'.pools q)

lemma sameQueues_refl (w : IOWorker) : SameQueues w w :=
  ⟨rfl, fun q => Pool.sameQueue_refl (w.pools q)⟩

lemma SameQueues.trans (h : SameQueues w w') (h' : SameQueues w' w'') : SameQueues w w'' :=
  ⟨h'.registered_eq.trans h.registered_eq, fun q => (h.sameQueue q).trans (h'.sameQueue q)⟩

lemma sameQueues_setPool {pool : Pool} (h : (w.pools p).SameQueue pool) :
    SameQueues w (w.setPool p pool) := by
  refine ⟨rfl, fun q => ?_⟩
  by_cases hq : q = p
  · subst hq
    rw [setPool_pools_self]
    exact h
  · rw [setPool_pools_of_ne _ hq]
    exact Pool.sameQueue_refl _

lemma sameQueues_internalWrite {i : Nat} (h : w.internalWrite p i r = some w') : SameQueues w w' := by
  dsimp only [internalWrite] at h
  split at h
  · cases h
    exact sameQueues_refl w
  · split at h
    · split at h
      · cases h
        exact sameQueues_setPool ⟨rfl, rfl⟩
      · cases h
    · cases h

/-- A connection with a free stream takes the request. -/
lemma internalWrite_isSome {i : Nat} {c : Connection} (hc : (w.pools p).connections[i]? = some c)
    (hfree : 0 < c.availableStreams) : ∃ w', w.internalWrite p i r = some w' := by
  dsimp only [internalWrite]
  split
  · exact ⟨w, rfl⟩
  · simp only [hc, hfree, ↓reduceIte]
    exact ⟨_, rfl⟩

/-- The loop writes to the pool's connections and changes no queue and no registration: it is
given only connections with a free stream, so `internal_write` takes every request and nothing is
handed back. -/
lemma processLoop_sameQueues (p : Nat) :
    ∀ (rs : List Nat) (w : IOWorker), SameQueues w (w.processLoop p rs).1
  | [], w => sameQueues_refl w
  | r :: rs, w => by
    simp only [processLoop]
    split
    · exact processLoop_sameQueues p rs w
    · split
      · rename_i pool hb
        exact sameQueues_setPool (Pool.sameQueue_of_borrowConnection hb)
      · rename_i i pool hb
        obtain ⟨hconn, c, hc, hfree⟩ := Pool.borrowConnection_eq_some hb
        have hc' : ((w.setPool p pool).pools p).connections[i]? = some c := by
          rw [setPool_pools_self, hconn, hc]
        obtain ⟨w₁, hw₁⟩ := internalWrite_isSome (r := r) hc' hfree
        have h₁ : SameQueues w w₁ :=
          (sameQueues_setPool (Pool.sameQueue_of_borrowConnection hb)).trans
            (sameQueues_internalWrite hw₁)
        have hwrite : (w.setPool p pool).internalWriteOrRetry p i r = w₁ := by
          rw [internalWriteOrRetry, hw₁]
        rw [hwrite]
        exact h₁.trans (processLoop_sameQueues p rs w₁)

/-- `process_pending_requests` changes only its own pool's queue, erasing what the loop passed,
and its flag and its result say whether requests are left. -/
lemma processPendingRequests_spec (w : IOWorker) (p : Nat) :
    (∀ q, q ≠ p → (w.pools q).SameQueue ((w.processPendingRequests p).2.pools q)) ∧
      ((w.processPendingRequests p).2.pools p).isPendingRequestProcessing =
        !((w.processPendingRequests p).2.pools p).pendingRequests.isEmpty ∧
      (w.processPendingRequests p).1 =
        ((w.processPendingRequests p).2.pools p).isPendingRequestProcessing := by
  have hs := processLoop_sameQueues p (w.pools p).pendingRequests w
  dsimp only [processPendingRequests]
  refine ⟨fun q hq => ?_, by rw [setPool_pools_self], by rw [setPool_pools_self]⟩
  rw [setPool_pools_of_ne _ hq]
  exact hs.sameQueue q

/-- After a round over distinct pools, each pool of the round has its flag saying whether
requests are left, and is kept exactly when they are; every other pool keeps its queue. -/
lemma checkLoop_spec :
    ∀ (ps : List Nat) (w : IOWorker), ps.Nodup →
      (∀ q ∉ ps, (w.pools q).SameQueue ((w.checkLoop ps).1.pools q)) ∧
      (∀ q ∈ ps, ((w.checkLoop ps).1.pools q).isPendingRequestProcessing =
          !((w.checkLoop ps).1.pools q).pendingRequests.isEmpty ∧
        (q ∈ (w.checkLoop ps).2 ↔ ((w.checkLoop ps).1.pools q).isPendingRequestProcessing = true)) ∧
      (w.checkLoop ps).2.Sublist ps
  | [], w, _ => ⟨fun q _ => Pool.sameQueue_refl _, fun q hq => absurd hq List.not_mem_nil,
      List.Sublist.slnil⟩
  | p :: ps, w, hnd => by
    obtain ⟨hp, hnd'⟩ := List.nodup_cons.1 hnd
    obtain ⟨hother, hflag, hmore⟩ := processPendingRequests_spec w p
    obtain ⟨hout, hin, hsub⟩ := checkLoop_spec ps (w.processPendingRequests p).2 hnd'
    simp only [checkLoop]
    refine ⟨fun q hq => ?_, fun q hq => ?_, ?_⟩
    · -- a pool out of the round
      have hqp : q ≠ p := fun h => hq (h ▸ List.mem_cons_self)
      exact (hother q hqp).trans (hout q fun h => hq (List.mem_cons_of_mem p h))
    · rcases List.mem_cons.1 hq with rfl | hq
      · -- processed here, and not again in the rest of the round
        have hsame := hout q hp
        have hnot : q ∉ ((w.processPendingRequests q).2.checkLoop ps).2 :=
          fun h => hp (hsub.subset h)
        rw [hsame.2, hsame.1]
        refine ⟨hflag, ?_⟩
        rw [← hmore]
        cases (w.processPendingRequests q).1 <;> simp [hnot]
      · have hqp : q ≠ p := fun h => hp (h ▸ hq)
        refine ⟨(hin q hq).1, ?_⟩
        rw [← (hin q hq).2]
        split <;> simp [hqp]
    · split
      · exact hsub.cons_cons p
      · exact hsub.cons p

/-- The registrations are the pools with their flag set, each once, and every pool with
requests waiting has its flag set. -/
structure Registered (w : IOWorker) : Prop where
  nodup : w.poolsPendingRequestProcessing.Nodup
  mem_iff : ∀ p, p ∈ w.poolsPendingRequestProcessing ↔ (w.pools p).isPendingRequestProcessing = true
  flag_of_pendingRequests :
    ∀ p, (w.pools p).pendingRequests ≠ [] → (w.pools p).isPendingRequestProcessing = true

lemma Registered.of_sameQueues (h : Registered w) (hs : SameQueues w w') : Registered w' := by
  refine ⟨?_, fun p => ?_, fun p hp => ?_⟩
  · rw [hs.registered_eq]
    exact h.nodup
  · rw [hs.registered_eq, (hs.sameQueue p).2]
    exact h.mem_iff p
  · rw [(hs.sameQueue p).1] at hp
    rw [(hs.sameQueue p).2]
    exact h.flag_of_pendingRequests p hp

lemma Registered.waitForConnection (h : Registered w) (p r : Nat) :
    Registered (w.waitForConnection p r) := by
  dsimp only [IOWorker.waitForConnection]
  split
  · exact h
  · -- the pool's flag is set afterwards, and only its queue grows
    have hflag : ∀ q, ((w.setPool p { w.pools p with
        pendingRequests := (w.pools p).pendingRequests ++ [r],
        isPendingRequestProcessing := true }).pools q).isPendingRequestProcessing = true ↔
          q = p ∨ (w.pools q).isPendingRequestProcessing = true := by
      intro q
      by_cases hq : q = p
      · subst hq
        simp
      · simp [hq]
    have hpending : ∀ q, ((w.setPool p { w.pools p with
        pendingRequests := (w.pools p).pendingRequests ++ [r],
        isPendingRequestProcessing := true }).pools q).pendingRequests ≠ [] →
          q = p ∨ (w.pools q).pendingRequests ≠ [] := by
      intro q hq'
      by_cases hq : q = p
      · exact .inl hq
      · rw [setPool_pools_of_ne _ hq] at hq'
        exact .inr hq'
    split
    · rename_i hset
      refine ⟨h.nodup, fun q => ?_, fun q hq => ?_⟩
      · rw [hflag q]
        refine ⟨fun hm => .inr ((h.mem_iff q).1 hm), ?_⟩
        rintro (rfl | hq)
        · exact (h.mem_iff q).2 hset
        · exact (h.mem_iff q).2 hq
      · rcases hpending q hq with rfl | hq
        · exact (hflag q).2 (.inl rfl)
        · exact (hflag q).2 (.inr (h.flag_of_pendingRequests q hq))
    · rename_i hset
      have hp : p ∉ w.poolsPendingRequestProcessing := fun hm => hset ((h.mem_iff p).1 hm)
      refine ⟨?_, fun q => ?_, fun q hq => ?_⟩
      · refine List.nodup_append.2 ⟨h.nodup, List.pairwise_singleton _ p, fun a ha b hb => ?_⟩
        rw [List.mem_singleton] at hb
        rintro rfl
        exact hp (hb ▸ ha)
      · simp only [addPendingRequestProcessing, List.mem_append, List.mem_singleton]
        rw [show (w.setPool p _).poolsPendingRequestProcessing = w.poolsPendingRequestProcessing
          from rfl, h.mem_iff q]
        exact (hflag q).trans Or.comm |>.symm
      · rcases hpending q hq with rfl | hq
        · exact (hflag q).2 (.inl rfl)
        · exact (hflag q).2 (.inr (h.flag_of_pendingRequests q hq))

lemma Registered.setPlan (h : Registered w) (r : Nat) (plan : List Nat) :
    Registered (w.setPlan r plan) :=
  ⟨h.nodup, h.mem_iff, h.flag_of_pendingRequests⟩

lemma Registered.write (h : Registered w) (p r : Nat) : Registered (w.write p r).2 := by
  unfold IOWorker.write
  split
  · rename_i i pool hb
    have h₁ := h.of_sameQueues (sameQueues_setPool (Pool.sameQueue_of_borrowConnection hb))
    split
    · rename_i hw
      exact h₁.of_sameQueues (sameQueues_internalWrite hw)
    · exact h₁
  · rename_i pool hb
    exact (h.of_sameQueues (sameQueues_setPool (Pool.sameQueue_of_borrowConnection hb))).waitForConnection
      p r

lemma Registered.retry (r : Nat) : ∀ (plan : List Nat) {w : IOWorker}, Registered w →
    Registered (w.retry r plan)
  | [], w, h => h.setPlan r []
  | q :: qs, w, h => by
    rw [IOWorker.retry]
    split
    · split
      · exact (h.write q r).setPlan r _
      · exact Registered.retry r qs (h.write q r)
    · exact Registered.retry r qs h

/-- A pool out of the vector has no requests waiting, so destroying it hands none back. -/
lemma Registered.destroyPool (h : Registered w) (hp : p ∉ w.poolsPendingRequestProcessing) :
    Registered (w.destroyPool p) := by
  have hnil : (w.pools p).pendingRequests = [] := by
    by_contra hne
    exact hp ((h.mem_iff p).2 (h.flag_of_pendingRequests p hne))
  unfold IOWorker.destroyPool
  rw [hnil]
  exact ⟨h.nodup, h.mem_iff, h.flag_of_pendingRequests⟩

lemma Registered.onCheck (h : Registered w) : Registered w.onCheck := by
  obtain ⟨hout, hin, hsub⟩ := checkLoop_spec w.poolsPendingRequestProcessing w h.nodup
  refine ⟨hsub.nodup h.nodup, fun q => ?_, fun q hq => ?_⟩
  · show q ∈ (w.checkLoop _).2 ↔ ((w.checkLoop _).1.pools q).isPendingRequestProcessing = true
    by_cases hq : q ∈ w.poolsPendingRequestProcessing
    · exact (hin q hq).2
    · -- a pool out of the round keeps its cleared flag and stays out
      have hflag : (w.pools q).isPendingRequestProcessing = false := by
        simpa using (h.mem_iff q).not.1 hq
      rw [(hout q hq).2, hflag]
      exact ⟨fun hm => absurd (hsub.subset hm) hq, fun hf => by cases hf⟩
  · show ((w.checkLoop _).1.pools q).isPendingRequestProcessing = true
    change ((w.checkLoop _).1.pools q).pendingRequests ≠ [] at hq
    by_cases hq' : q ∈ w.poolsPendingRequestProcessing
    · rw [(hin q hq').1]
      simpa using hq
    · rw [(hout q hq').1] at hq
      rw [(hout q hq').2]
      exact h.flag_of_pendingRequests q hq

lemma Registered.step (h : Registered w) {e : Event} (hstep : w.step e = some w') : Registered w' := by
  cases e with
  | execute r plan =>
    simp only [IOWorker.step, Option.ite_none_left_eq_some, Option.some.injEq] at hstep
    obtain ⟨-, rfl⟩ := hstep
    exact Registered.retry r plan ⟨h.nodup, h.mem_iff, h.flag_of_pendingRequests⟩
  | check =>
    cases hstep
    exact h.onCheck
  | connectionReady q maxStreams =>
    simp only [IOWorker.step, Option.ite_none_right_eq_some, Option.some.injEq] at hstep
    obtain ⟨-, rfl⟩ := hstep
    exact h.of_sameQueues (sameQueues_setPool (Pool.sameQueue_onReady _ _))
  | connectionClosed q connection defunct timeoutError =>
    simp only [IOWorker.step, Option.ite_none_right_eq_some, Option.some.injEq] at hstep
    obtain ⟨-, rfl⟩ := hstep
    exact h.of_sameQueues (sameQueues_setPool (Pool.sameQueue_onClose _ _ _ _))
  | responseReceived q i =>
    simp only [IOWorker.step] at hstep
    split at hstep
    · rw [Option.ite_none_right_eq_some, Option.some.injEq] at hstep
      obtain ⟨-, rfl⟩ := hstep
      exact h.of_sameQueues (sameQueues_setPool ⟨rfl, rfl⟩)
    · cases hstep
  | cancel r =>
    cases hstep
    exact ⟨h.nodup, h.mem_iff, h.flag_of_pendingRequests⟩
  | close q =>
    cases hstep
    exact h.of_sameQueues (sameQueues_setPool (Pool.sameQueue_close _))
  | destroy q =>
    simp only [IOWorker.step, Option.ite_none_right_eq_some, Option.some.injEq] at hstep
    obtain ⟨hcond, rfl⟩ := hstep
    exact h.destroyPool hcond.2.1

/-- Every run keeps the registrations in step with the queues. -/
theorem Registered.run (h : Registered w) :
    ∀ {es : List Event} {w' : IOWorker}, w.run es = some w' → Registered w' := by
  intro es
  induction es generalizing w with
  | nil =>
    intro w' hrun
    cases hrun
    exact h
  | cons e es ih =>
    intro w' hrun
    obtain ⟨w₁, h₁, h₂⟩ := Option.bind_eq_some_iff.1 hrun
    exact ih (h.step h₁) h₂

/-- After every run, in particular after every `on_check` round, a pool with requests waiting is
in the vector the next round processes. -/
lemma Registered.mem_of_pendingRequests (h : Registered w) (hp : (w.pools p).pendingRequests ≠ []) :
    p ∈ w.poolsPendingRequestProcessing :=
  (h.mem_iff p).2 (h.flag_of_pendingRequests p hp)

end IOWorker

end ConnectionPool

end CassandraDriver
