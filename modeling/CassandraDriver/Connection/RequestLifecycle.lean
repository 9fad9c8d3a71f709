import CassandraDriver.Connection.StreamManager

/-!
# The life of a request on a connection

`Connection::internal_write` takes a stream id for a request callback, holds a reference to it,
and adds it to the last of `pending_writes_`; flushing a pending write hands its buffers to
`uv_write`. From then on four things can happen to the request, in any order the event loop
delivers them: the write completes (`PendingWriteBase::on_write`, with a status), its response
arrives (`Connection::consume` finds its stream), it is cancelled (`set_state(CANCELLED)`, from
the request timer or the request handler), and the connection closes (`cleanup_pending_callbacks`
in `Connection::on_close`, over `pending_reads_` and the pending writes). `READ_BEFORE_WRITE` and
the three `CANCELLED_*` states record which of these came first.

The connection holds the callbacks by address (`callbacks`). Besides `state_` and `stream_`, a
callback records what the connection did to it: the calls that end the request (`on_set`,
`on_error`, `on_retry_next_host`, `on_cancel`), the references taken and dropped, the releases of
its stream, whether it was cancelled, and whether the server holds its request unanswered
(`sent`), which is when a response for its stream can arrive. A failed assertion (of `set_state`
or of a `switch` over the states) is counted in `failures`.

`pending_writes_` is kept as the flushed pending writes, oldest first, and the last one while it
is not flushed: only the last one can be unflushed, since `internal_write` starts a new one once
the last is flushed. A flushed write is `queued` when `uv_write` accepted it, which it does
unless the socket is closing; libuv then completes the queued writes in order, with an error
once the socket is closing.

`RequestCallback::set_state` itself is `RequestCallback.setState`; the events and the conditions
under which the event loop delivers them are `Connection.Event` and `Connection.Allowed`.
-/

namespace CassandraDriver

namespace RequestCallback

/-- `RequestCallback::State`. -/
inductive State
  | new
  | writing
  | reading
  | readBeforeWrite
  | finished
  | cancelled
  | cancelledWriting
  | cancelledReading
  | cancelledReadBeforeWrite
  deriving DecidableEq, Repr

/-- `set_state`: the state it moves to, or `none` where its assertion fails (a release build
then leaves the state as it is). In `CANCELLED` the assertion always holds, its right operand
being a string, and the state stays. -/
def setState : State → State → Option State
  | .new, next =>
    if next = .new ∨ next = .cancelled ∨ next = .writing then some next else none
  | .writing, next =>
    if next = .reading ∨ next = .readBeforeWrite ∨ next = .finished then some next
    else if next = .cancelled then some .cancelledWriting else none
  | .reading, next =>
    if next = .finished then some next
    else if next = .cancelled then some .cancelledReading else none
  | .readBeforeWrite, next =>
    if next = .finished then some next
    else if next = .cancelled then some .cancelledReadBeforeWrite else none
  | .finished, next => if next = .new ∨ next = .cancelled then some next else none
  | .cancelled, _ => some .cancelled
  | .cancelledReadBeforeWrite, next => if next = .cancelled then some next else none
  | .cancelledReading, next => if next = .cancelled then some next else none
  | .cancelledWriting, next =>
    if next = .cancelled ∨ next = .cancelledReading ∨ next = .cancelledReadBeforeWrite then
      some next
    else none

/-- The states a cancellation leads to. -/
def State.IsCancelled : State → Prop
  | .cancelled | .cancelledWriting | .cancelledReading | .cancelledReadBeforeWrite => True
  | _ => False

instance : DecidablePred State.IsCancelled
  | .cancelled | .cancelledWriting | .cancelledReading | .cancelledReadBeforeWrite =>
    isTrue trivial
  | .new | .writing | .reading | .readBeforeWrite | .finished => isFalse id

end RequestCallback

/-- The calls of the connection that end a request. -/
inductive Ending
  | set
  | error
  | retryNextHost
  | cancel
  deriving DecidableEq, Repr

open RequestCallback

/-- A request callback as the connection sees it: `state_`, `stream_` and whether its request
is idempotent, and what the connection did to it. -/
structure Callback where
  state : State
  stream : Int
  isIdempotent : Bool
  endings : List Ending
  refs : Nat
  drops : Nat
  releases : Nat
  cancelRequested : Bool
  sent : Bool

/-- A new callback. -/
def Callback.new (isIdempotent : Bool) : Callback :=
  ⟨.new, 0, isIdempotent, [], 0, 0, 0, false, false⟩

/-- A flushed pending write: its `callbacks_`, and whether `uv_write` accepted it. -/
structure FlushedWrite where
  callbacks : List Nat
  queued : Bool

/-- The state of a connection, as far as its requests go. -/
structure Connection where
  callbacks : Nat → Callback
  streamManager : StreamManager Nat
  flushedWrites : List FlushedWrite
  unflushed : Option (List Nat)
  pendingReads : List Nat
  isClosing : Bool
  isClosed : Bool
  failures : Nat

namespace Connection

/-- A connection with nothing written, for requests whose idempotence is given. -/
def new (protocolVersion : Int) (isIdempotent : Nat → Bool) : Connection :=
  ⟨fun r => Callback.new (isIdempotent r), StreamManager.new protocolVersion, [], none, [], false,
    false, 0⟩

/-! ### What the handlers do to one callback -/

/-- Change the callback `r`. -/
def modify (c : Connection) (r : Nat) (f : Callback → Callback) : Connection :=
  { c with callbacks := Function.update c.callbacks r (f (c.callbacks r)) }

section Modify

variable (c : Connection) (r : Nat) (f : Callback → Callback)

@[simp] lemma modify_callbacks_self : (c.modify r f).callbacks r = f (c.callbacks r) := by
  simp [modify]

@[simp] lemma modify_callbacks_of_ne {r' : Nat} (h : r' ≠ r) :
    (c.modify r f).callbacks r' = c.callbacks r' := by
  simp [modify, h]

@[simp] lemma modify_modify (g : Callback → Callback) :
    (c.modify r f).modify r g = c.modify r (g ∘ f) := by
  simp [modify, Function.update_idem]

@[simp] lemma modify_streamManager : (c.modify r f).streamManager = c.streamManager := rfl
@[simp] lemma modify_flushedWrites : (c.modify r f).flushedWrites = c.flushedWrites := rfl
@[simp] lemma modify_unflushed : (c.modify r f).unflushed = c.unflushed := rfl
@[simp] lemma modify_pendingReads : (c.modify r f).pendingReads = c.pendingReads := rfl
@[simp] lemma modify_isClosing : (c.modify r f).isClosing = c.isClosing := rfl
@[simp] lemma modify_isClosed : (c.modify r f).isClosed = c.isClosed := rfl
@[simp] lemma modify_failures : (c.modify r f).failures = c.failures := rfl

end Modify

/-- A failed assertion. -/
def fail (c : Connection) : Connection := { c with failures := c.failures + 1 }

/-- `callback->set_state(next)`. -/
def setRequestState (c : Connection) (r : Nat) (next : State) : Connection :=
  match setState (c.callbacks r).state next with
  | some s => c.modify r fun cb => { cb with state := s }
  | none => c.fail

/-- `callback->on_set`, `on_error`, `on_retry_next_host` or `on_cancel`. -/
def notify (c : Connection) (r : Nat) (e : Ending) : Connection :=
  c.modify r fun cb => { cb with endings := cb.endings ++ [e] }

/-- `callback->dec_ref()` for the connection's reference. -/
def decRef (c : Connection) (r : Nat) : Connection :=
  c.modify r fun cb => { cb with drops := cb.drops + 1 }

/-- `stream_manager_.release(callback->stream())`. -/
def releaseStream (c : Connection) (r : Nat) : Connection :=
  match c.streamManager.release (c.callbacks r).stream with
  | some sm =>
    { c.modify r (fun cb => { cb with releases := cb.releases + 1 }) with streamManager := sm }
  | none => c.fail

/-- `defunct()`: `internal_close` closes the socket unless it is closing. -/
def defunct (c : Connection) : Connection := { c with isClosing := true }

/-- `pending_reads_.add_to_back(callback)`. -/
def addRead (c : Connection) (r : Nat) : Connection :=
  { c with pendingReads := c.pendingReads ++ [r] }

/-- `pending_reads_.remove(callback)`. -/
def removeRead (c : Connection) (r : Nat) : Connection :=
  { c with pendingReads := c.pendingReads.erase r }

/-! ### The handlers -/

/-- `Connection::flush`: the last pending write, if it is not flushed and has buffers, is handed
to `uv_write`, which accepts it unless the socket is closing; the server then holds its
requests. -/
def flush (c : Connection) : Connection :=
  match c.unflushed with
  | some (r :: rs) =>
    { c with
      callbacks := fun r' => if r' ∈ r :: rs ∧ !c.isClosing then
        { c.callbacks r' with sent := true } else c.callbacks r'
      flushedWrites := c.flushedWrites ++ [⟨r :: rs, !c.isClosing⟩]
      unflushed := none }
  | _ => c

/-- `Connection::internal_write(callback, flush_immediately)`, for a request that encodes or not
(`pending_write->write` returning a size or an error). Of an encoding error the request hears
once: from the encoder itself for the two errors it reports (`on_error` in `encode_values` and
`BatchRequest::encode`), from `internal_write` for the others. -/
def internalWrite (c : Connection) (r : Nat) (encodes flushImmediately : Bool) : Connection :=
  if (c.callbacks r).state = .cancelled then c
  else
    let acquired := c.streamManager.acquire r
    if acquired.1 < 0 then { c with streamManager := acquired.2 }
    else
      -- `inc_ref`, `start`, and a new pending write unless the last one is not flushed
      let c := { c.modify r (fun cb => { cb with refs := cb.refs + 1, stream := acquired.1 }) with
        streamManager := acquired.2, unflushed := some (c.unflushed.getD []) }
      if encodes then
        let c := { c with unflushed := some (c.unflushed.getD [] ++ [r]) }
        let c := c.setRequestState r .writing
        if flushImmediately then c.flush else c
      else ((c.releaseStream r).notify r .error).decRef r

/-- The body of the loop of `PendingWriteBase::on_write` for one callback. -/
def onWriteCallback (ok : Bool) (c : Connection) (r : Nat) : Connection :=
  match (c.callbacks r).state with
  | .writing =>
    if ok then (c.setRequestState r .reading).addRead r
    else
      let c := if c.isClosing then c else c.defunct
      (((c.releaseStream r).setRequestState r .finished).notify r .error).decRef r
  | .readBeforeWrite => ((c.setRequestState r .finished).notify r .set).decRef r
  | .cancelledWriting => (c.setRequestState r .cancelledReading).addRead r
  | .cancelledReadBeforeWrite => ((c.setRequestState r .cancelled).notify r .cancel).decRef r
  | _ => c.fail

/-- The loop of `PendingWriteBase::on_write` over the `callbacks_` of the oldest write, whose
`queued` flag and the writes after it are given: each callback is taken out of the write, then
handled; the empty write is then taken out of `pending_writes_` and deleted. -/
def onWriteLoop (ok queued : Bool) (rest : List FlushedWrite) :
    List Nat → Connection → Connection
  | [], c => { c with flushedWrites := rest }
  | r :: todo, c =>
    onWriteLoop ok queued rest todo
      (onWriteCallback ok { c with flushedWrites := ⟨todo, queued⟩ :: rest } r)

/-- `PendingWriteBase::on_write` for the oldest queued write, then `connection->flush()`. -/
def onWrite (c : Connection) (ok : Bool) : Connection :=
  match c.flushedWrites with
  | [] => c
  | pw :: rest => (onWriteLoop ok pw.queued rest pw.callbacks c).flush

/-- `Connection::consume` for a response on the stream `stream`. -/
def consume (c : Connection) (stream : Int) : Connection :=
  match c.streamManager.getPendingAndRelease stream with
  | none => c.fail
  | some (none, _) => c.defunct
  | some (some r, sm) =>
    let c := { c.modify r (fun cb => { cb with releases := cb.releases + 1, sent := false }) with
      streamManager := sm }
    match (c.callbacks r).state with
    | .reading => (((c.removeRead r).setRequestState r .finished).notify r .set).decRef r
    | .writing => c.setRequestState r .readBeforeWrite
    | .cancelledReading =>
      (((c.removeRead r).setRequestState r .cancelled).notify r .cancel).decRef r
    | .cancelledWriting => c.setRequestState r .cancelledReadBeforeWrite
    | _ => c.fail

/-- `set_state(REQUEST_STATE_CANCELLED)` from the request's timer or its handler. -/
def cancel (c : Connection) (r : Nat) : Connection :=
  (c.modify r fun cb => { cb with cancelRequested := true }).setRequestState r .cancelled

/-- The body of the loop of `cleanup_pending_callbacks` for one callback. -/
def cleanupCallback (c : Connection) (r : Nat) : Connection :=
  let c := match (c.callbacks r).state with
    | .new | .finished | .cancelled => c.fail
    | .readBeforeWrite => (c.setRequestState r .finished).notify r .set
    | .writing | .reading =>
      (c.setRequestState r .finished).notify r
        (if (c.callbacks r).isIdempotent then .retryNextHost else .error)
    | .cancelledWriting | .cancelledReading | .cancelledReadBeforeWrite =>
      (c.setRequestState r .cancelled).notify r .cancel
  c.decRef r

/-- The callbacks of the pending writes, oldest first. -/
def writeCallbacks (c : Connection) : List Nat :=
  c.flushedWrites.flatMap FlushedWrite.callbacks ++ c.unflushed.getD []

/-- `Connection::on_close`: the pending reads are cleaned up, then each pending write, whose
destructor cleans up its callbacks. -/
def onClose (c : Connection) : Connection :=
  let c' := (c.pendingReads ++ c.writeCallbacks).foldl cleanupCallback
    { c with pendingReads := [], flushedWrites := [], unflushed := none }
  { c' with isClosed := true }

/-- What the event loop delivers to a connection. -/
inductive Event
  | write (r : Nat) (encodes flushImmediately : Bool)
  | flush
  | writeDone (ok : Bool)
  | response (stream : Int)
  | cancel (r : Nat)
  | close
  | closed

/-- When the event loop delivers an event: a pool writes only to a connection that is ready, a
request that is not already held by the connection; libuv completes the oldest queued write,
with an error once the socket is closing; while the socket reads (`consume` stops once it is
closing), a response comes on a stream that is not pending or on the stream of a request the
server holds (events, on negative streams, touch no request and are left out); a request is
cancelled once, by its timer or by its handler; `on_close` runs once the socket is closing. -/
def Allowed (c : Connection) : Event → Prop
  | .write r _ _ => c.isClosing = false ∧ (c.callbacks r).refs = 0
  | .flush => c.isClosing = false
  | .writeDone ok =>
    c.isClosed = false ∧ (∃ pw rest, c.flushedWrites = pw :: rest ∧ pw.queued = true) ∧
      (c.isClosing = true → ok = false)
  | .response stream =>
    0 ≤ stream ∧ c.isClosing = false ∧
      ∀ r, c.streamManager.pending.lookup stream = some r → (c.callbacks r).sent = true
  | .cancel r => ¬(c.callbacks r).state.IsCancelled
  | .close => True
  | .closed => c.isClosing = true ∧ c.isClosed = false

/-- The connection after an event. -/
def step (c : Connection) : Event → Connection
  | .write r encodes flushImmediately => c.internalWrite r encodes flushImmediately
  | .flush => c.flush
  | .writeDone ok => c.onWrite ok
  | .response stream => c.consume stream
  | .cancel r => c.cancel r
  | .close => c.defunct
  | .closed => c.onClose

/-- The connections a run of allowed events reaches from a new one. -/
inductive Reachable : Connection → Prop
  | new (protocolVersion : Int) (isIdempotent : Nat → Bool) :
    Reachable (Connection.new protocolVersion isIdempotent)
  | step {c : Connection} {ev : Event} : Reachable c → c.Allowed ev → Reachable (c.step ev)

end Connection

end CassandraDriver
