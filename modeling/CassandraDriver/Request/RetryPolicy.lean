import Mathlib.Data.List.Basic

/-!
# Retry policies and the retries of a request execution

When a request execution receives an error response, `RequestExecution::on_error_response` asks
the retry policy what to do with a read timeout, a write timeout, an unavailable error, an
overloaded host or a server error; a bootstrapping host and an unprepared statement are handled
at once. The policy (`retry_policy.cpp`) answers with a `RetryDecision`: return the error, retry
at a consistency on the same host or on the next one, or ignore the error. A retry sets the
execution's `retry_consistency_`, which every later attempt sends, and counts one more in
`num_retries_`, which the policies read.

The policies are the default one, the downgrading one, the fallthrough one and the logging one,
which logs what the policy it wraps decides.

* Over every sequence of error responses an execution receives, whatever the retry policy, at
  most one retry follows a read timeout, a write timeout or an unavailable error
  (`timeoutRetries_le_one`): each policy retries those only while `num_retries_` is zero.
* A request that is not idempotent is never sent again after a write timeout, an overloaded host
  or a server error (`nonIdempotent_not_resent`): the server may have applied it.
* The downgrading policy retries at another consistency only at `ONE`, `TWO` or `THREE`, and no
  higher than the replicas the error reports as having answered, or as alive
  (`downgrading_retryConsistency`).
-/

namespace CassandraDriver

/-- `CassConsistency`. -/
inductive CassConsistency
  | unknown | any | one | two | three | quorum | all | localQuorum | eachQuorum | serial
  | localSerial | localOne
  deriving DecidableEq, Repr

/-- `CassWriteType`. -/
inductive CassWriteType
  | unknown | simple | batch | unloggedBatch | counter | batchLog | cas | view | cdc
  deriving DecidableEq, Repr

/-- `RetryPolicy::Type`, with the policy a `LoggingRetryPolicy` wraps. -/
inductive RetryPolicy
  | default
  | downgrading
  | fallthrough
  | logging (child : RetryPolicy)
  deriving DecidableEq, Repr

namespace RetryPolicy

/-- `RetryDecision::Type`. -/
inductive DecisionType
  | returnError
  | retry
  | ignore
  deriving DecidableEq, Repr

/-- `RetryDecision`: its type, the consistency to retry at, and whether to retry on the same
host. -/
structure RetryDecision where
  type : DecisionType
  retryCl : CassConsistency
  retryCurrentHost : Bool
  deriving DecidableEq, Repr

namespace RetryDecision

/-- `RetryDecision::return_error()`. -/
def returnError : RetryDecision := ⟨.returnError, .unknown, false⟩

/-- `RetryDecision::retry(cl)`: on the same host. -/
def retry (cl : CassConsistency) : RetryDecision := ⟨.retry, cl, true⟩

/-- `RetryDecision::retry_next_host(cl)`. -/
def retryNextHost (cl : CassConsistency) : RetryDecision := ⟨.retry, cl, false⟩

/-- `RetryDecision::ignore()`. -/
def ignore : RetryDecision := ⟨.ignore, .unknown, false⟩

@[simp] lemma returnError_type : returnError.type = .returnError := rfl
@[simp] lemma retry_type (cl : CassConsistency) : (retry cl).type = .retry := rfl
@[simp] lemma retryNextHost_type (cl : CassConsistency) : (retryNextHost cl).type = .retry := rfl
@[simp] lemma ignore_type : ignore.type = .ignore := rfl

end RetryDecision

open RetryDecision

/-- `max_likely_to_work`: the highest of `THREE`, `TWO` and `ONE` that the replicas that
answered can reach. -/
def maxLikelyToWork (received : Int) : RetryDecision :=
  if received ≥ 3 then retry .three
  else if received = 2 then retry .two
  else if received = 1 then retry .one
  else returnError

/-- `DefaultRetryPolicy::on_read_timeout`. -/
def DefaultRetryPolicy.onReadTimeout (cl : CassConsistency) (received required : Int)
    (dataReceived : Bool) (numRetries : Nat) : RetryDecision :=
  if numRetries ≠ 0 then returnError
  else if received ≥ required ∧ !dataReceived then retry cl
  else returnError

/-- `DefaultRetryPolicy::on_write_timeout`. -/
def DefaultRetryPolicy.onWriteTimeout (cl : CassConsistency) (writeType : CassWriteType)
    (numRetries : Nat) : RetryDecision :=
  if numRetries ≠ 0 then returnError
  else if writeType = .batchLog then retry cl
  else returnError

/-- `DefaultRetryPolicy::on_unavailable`. -/
def DefaultRetryPolicy.onUnavailable (cl : CassConsistency) (numRetries : Nat) : RetryDecision :=
  if numRetries = 0 then retryNextHost cl else returnError

/-- `DefaultRetryPolicy::on_request_error`. -/
def DefaultRetryPolicy.onRequestError (cl : CassConsistency) : RetryDecision :=
  retryNextHost cl

/-- `DowngradingConsistencyRetryPolicy::on_read_timeout`. -/
def DowngradingConsistencyRetryPolicy.onReadTimeout (cl : CassConsistency)
    (received required : Int) (dataReceived : Bool) (numRetries : Nat) : RetryDecision :=
  if numRetries ≠ 0 then returnError
  else if cl = .serial ∨ cl = .localSerial then returnError
  else if received < required then maxLikelyToWork received
  else if !dataReceived then retry cl
  else returnError

/-- `DowngradingConsistencyRetryPolicy::on_write_timeout`. -/
def DowngradingConsistencyRetryPolicy.onWriteTimeout (cl : CassConsistency) (received : Int)
    (writeType : CassWriteType) (numRetries : Nat) : RetryDecision :=
  if numRetries ≠ 0 then returnError
  else
    match writeType with
    | .simple | .batch => if received > 0 then ignore else returnError
    | .unloggedBatch => maxLikelyToWork received
    | .batchLog => retry cl
    | _ => returnError

/-- `DowngradingConsistencyRetryPolicy::on_unavailable`. -/
def DowngradingConsistencyRetryPolicy.onUnavailable (alive : Int) (numRetries : Nat) :
    RetryDecision :=
  if numRetries ≠ 0 then returnError else maxLikelyToWork alive

/-- `DowngradingConsistencyRetryPolicy::on_request_error`. -/
def DowngradingConsistencyRetryPolicy.onRequestError (cl : CassConsistency) : RetryDecision :=
  retryNextHost cl

/-- `RetryPolicy::on_read_timeout`, by the policy's class; `FallthroughRetryPolicy` returns the
error, and `LoggingRetryPolicy` returns what the policy it wraps decides. -/
def onReadTimeout : RetryPolicy → CassConsistency → Int → Int → Bool → Nat → RetryDecision
  | .default, cl, received, required, dataReceived, numRetries =>
    DefaultRetryPolicy.onReadTimeout cl received required dataReceived numRetries
  | .downgrading, cl, received, required, dataReceived, numRetries =>
    DowngradingConsistencyRetryPolicy.onReadTimeout cl received required dataReceived numRetries
  | .fallthrough, _, _, _, _, _ => returnError
  | .logging child, cl, received, required, dataReceived, numRetries =>
    child.onReadTimeout cl received required dataReceived numRetries

/-- `RetryPolicy::on_write_timeout`, by the policy's class. -/
def onWriteTimeout : RetryPolicy → CassConsistency → Int → Int → CassWriteType → Nat →
    RetryDecision
  | .default, cl, _, _, writeType, numRetries =>
    DefaultRetryPolicy.onWriteTimeout cl writeType numRetries
  | .downgrading, cl, received, _, writeType, numRetries =>
    DowngradingConsistencyRetryPolicy.onWriteTimeout cl received writeType numRetries
  | .fallthrough, _, _, _, _, _ => returnError
  | .logging child, cl, received, required, writeType, numRetries =>
    child.onWriteTimeout cl received required writeType numRetries

/-- `RetryPolicy::on_unavailable`, by the policy's class. -/
def onUnavailable : RetryPolicy → CassConsistency → Int → Int → Nat → RetryDecision
  | .default, cl, _, _, numRetries => DefaultRetryPolicy.onUnavailable cl numRetries
  | .downgrading, _, _, alive, numRetries =>
    DowngradingConsistencyRetryPolicy.onUnavailable alive numRetries
  | .fallthrough, _, _, _, _ => returnError
  | .logging child, cl, required, alive, numRetries =>
    child.onUnavailable cl required alive numRetries

/-- `RetryPolicy::on_request_error`, by the policy's class. -/
def onRequestError : RetryPolicy → CassConsistency → Nat → RetryDecision
  | .default, cl, _ => DefaultRetryPolicy.onRequestError cl
  | .downgrading, cl, _ => DowngradingConsistencyRetryPolicy.onRequestError cl
  | .fallthrough, _, _ => returnError
  | .logging child, cl, numRetries => child.onRequestError cl numRetries

/-- The policy a chain of `LoggingRetryPolicy`s wraps. -/
def base : RetryPolicy → RetryPolicy
  | .logging child => child.base
  | p => p

/-! ### What the policies decide -/

variable {cl : CassConsistency} {received required : Int} {dataReceived : Bool}
  {writeType : CassWriteType} {numRetries : Nat}

/-- After a first retry every policy returns the error of a read timeout. -/
lemma onReadTimeout_of_ne_zero (p : RetryPolicy) (h : numRetries ≠ 0) :
    p.onReadTimeout cl received required dataReceived numRetries = returnError := by
  induction p with
  | default => simp [onReadTimeout, DefaultRetryPolicy.onReadTimeout, h]
  | downgrading => simp [onReadTimeout, DowngradingConsistencyRetryPolicy.onReadTimeout, h]
  | fallthrough => rfl
  | logging child ih => exact ih

/-- After a first retry every policy returns the error of a write timeout. -/
lemma onWriteTimeout_of_ne_zero (p : RetryPolicy) (h : numRetries ≠ 0) :
    p.onWriteTimeout cl received required writeType numRetries = returnError := by
  induction p with
  | default => simp [onWriteTimeout, DefaultRetryPolicy.onWriteTimeout, h]
  | downgrading => simp [onWriteTimeout, DowngradingConsistencyRetryPolicy.onWriteTimeout, h]
  | fallthrough => rfl
  | logging child ih => exact ih

/-- After a first retry every policy returns the error of an unavailable replica set. -/
lemma onUnavailable_of_ne_zero (p : RetryPolicy) (h : numRetries ≠ 0) :
    p.onUnavailable cl required received numRetries = returnError := by
  induction p with
  | default => simp [onUnavailable, DefaultRetryPolicy.onUnavailable, h]
  | downgrading => simp [onUnavailable, DowngradingConsistencyRetryPolicy.onUnavailable, h]
  | fallthrough => rfl
  | logging child ih => exact ih

lemma maxLikelyToWork_type_ne_ignore (received : Int) :
    (maxLikelyToWork received).type ≠ .ignore := by
  unfold maxLikelyToWork
  split_ifs <;> simp

lemma onReadTimeout_type_ne_ignore (p : RetryPolicy) :
    (p.onReadTimeout cl received required dataReceived numRetries).type ≠ .ignore := by
  induction p with
  | default =>
    unfold onReadTimeout DefaultRetryPolicy.onReadTimeout
    split_ifs <;> simp
  | downgrading =>
    unfold onReadTimeout DowngradingConsistencyRetryPolicy.onReadTimeout
    split_ifs
    · simp
    · simp
    · exact maxLikelyToWork_type_ne_ignore received
    · simp
    · simp
  | fallthrough => simp [onReadTimeout]
  | logging child ih => exact ih

lemma onUnavailable_type_ne_ignore (p : RetryPolicy) :
    (p.onUnavailable cl required received numRetries).type ≠ .ignore := by
  induction p with
  | default =>
    unfold onUnavailable DefaultRetryPolicy.onUnavailable
    split_ifs <;> simp
  | downgrading =>
    unfold onUnavailable DowngradingConsistencyRetryPolicy.onUnavailable
    split_ifs
    · simp
    · exact maxLikelyToWork_type_ne_ignore received
  | fallthrough => simp [onUnavailable]
  | logging child ih => exact ih

lemma onRequestError_type_ne_ignore (p : RetryPolicy) :
    (p.onRequestError cl numRetries).type ≠ .ignore := by
  induction p with
  | default => simp [onRequestError, DefaultRetryPolicy.onRequestError]
  | downgrading => simp [onRequestError, DowngradingConsistencyRetryPolicy.onRequestError]
  | fallthrough => simp [onRequestError]
  | logging child ih => exact ih

/-- Only the downgrading policy ignores an error: a write timeout of a simple or batch write
that some replica acknowledged, before any retry. -/
lemma onWriteTimeout_type_eq_ignore_iff (p : RetryPolicy) :
    (p.onWriteTimeout cl received required writeType numRetries).type = .ignore ↔
      p.base = .downgrading ∧ numRetries = 0 ∧ (writeType = .simple ∨ writeType = .batch) ∧
        received > 0 := by
  induction p with
  | default =>
    unfold onWriteTimeout DefaultRetryPolicy.onWriteTimeout
    refine iff_of_false ?_ (by simp [base])
    split_ifs <;> simp
  | downgrading =>
    unfold onWriteTimeout DowngradingConsistencyRetryPolicy.onWriteTimeout
    by_cases hn : numRetries = 0
    · -- the `switch` on the write type: only simple and batch writes are ignored
      cases writeType with
      | simple | batch => by_cases hr : received > 0 <;> simp [hn, hr, base]
      | unloggedBatch => simpa [hn, base] using maxLikelyToWork_type_ne_ignore received
      | _ => simp [hn, base]
    · simp [hn]
  | fallthrough => simp [onWriteTimeout, base, returnError]
  | logging child ih => exact ih

/-! ### How far the downgrading policy downgrades -/

/-- A retry at `THREE`, `TWO` or `ONE`, with at least that many replicas. -/
def LikelyToWork (replicas : Int) (d : RetryDecision) : Prop :=
  d.retryCl = .three ∧ 3 ≤ replicas ∨ d.retryCl = .two ∧ replicas = 2 ∨
    d.retryCl = .one ∧ replicas = 1

/-- A decision that, when it retries, retries at `cl` or at a consistency `replicas` can reach. -/
def DowngradesTo (cl : CassConsistency) (replicas : Int) (d : RetryDecision) : Prop :=
  d.type = .retry → d.retryCl = cl ∨ LikelyToWork replicas d

lemma downgradesTo_maxLikelyToWork (replicas : Int) :
    DowngradesTo cl replicas (maxLikelyToWork replicas) := by
  intro h
  right
  unfold maxLikelyToWork at h ⊢
  split_ifs at h ⊢ with h3 h2 h1
  · exact .inl ⟨rfl, h3⟩
  · exact .inr (.inl ⟨rfl, h2⟩)
  · exact .inr (.inr ⟨rfl, h1⟩)
  · cases h

lemma downgradesTo_retry (replicas : Int) : DowngradesTo cl replicas (retry cl) :=
  fun _ => .inl rfl

lemma downgradesTo_of_type_ne {d : RetryDecision} (replicas : Int) (h : d.type ≠ .retry) :
    DowngradesTo cl replicas d :=
  fun h' => absurd h' h

/-- The downgrading policy retries at the request's consistency, or at `THREE`, `TWO` or `ONE`
when at least that many replicas answered a timeout, or are alive for an unavailable error. -/
theorem downgrading_retryConsistency (alive : Int) :
    DowngradesTo cl received
        (DowngradingConsistencyRetryPolicy.onReadTimeout cl received required dataReceived
          numRetries) ∧
      DowngradesTo cl received
        (DowngradingConsistencyRetryPolicy.onWriteTimeout cl received writeType numRetries) ∧
      DowngradesTo cl alive (DowngradingConsistencyRetryPolicy.onUnavailable alive numRetries) := by
  refine ⟨?_, ?_, ?_⟩
  · unfold DowngradingConsistencyRetryPolicy.onReadTimeout
    split_ifs
    · exact downgradesTo_of_type_ne received (by simp)
    · exact downgradesTo_of_type_ne received (by simp)
    · exact downgradesTo_maxLikelyToWork received
    · exact downgradesTo_retry received
    · exact downgradesTo_of_type_ne received (by simp)
  · unfold DowngradingConsistencyRetryPolicy.onWriteTimeout
    by_cases hn : numRetries ≠ 0
    · rw [if_pos hn]
      exact downgradesTo_of_type_ne received (by simp)
    · rw [if_neg hn]
      -- the `switch` on the write type: only an unlogged batch downgrades
      cases writeType with
      | simple | batch =>
        dsimp only
        split_ifs <;> exact downgradesTo_of_type_ne received (by simp)
      | unloggedBatch => exact downgradesTo_maxLikelyToWork received
      | batchLog => exact downgradesTo_retry received
      | _ => exact downgradesTo_of_type_ne received (by simp)
  · unfold DowngradingConsistencyRetryPolicy.onUnavailable
    split_ifs
    · exact downgradesTo_of_type_ne alive (by simp)
    · exact downgradesTo_maxLikelyToWork alive

end RetryPolicy

/-! ### `RequestExecution::on_error_response` -/

/-- `CQL_ERROR_SERVER_ERROR`. -/
def cqlErrorServerError : Int := 0x0000
/-- `CQL_ERROR_UNAVAILABLE`. -/
def cqlErrorUnavailable : Int := 0x1000
/-- `CQL_ERROR_OVERLOADED`. -/
def cqlErrorOverloaded : Int := 0x1001
/-- `CQL_ERROR_IS_BOOTSTRAPPING`. -/
def cqlErrorIsBootstrapping : Int := 0x1002
/-- `CQL_ERROR_WRITE_TIMEOUT`. -/
def cqlErrorWriteTimeout : Int := 0x1100
/-- `CQL_ERROR_READ_TIMEOUT`. -/
def cqlErrorReadTimeout : Int := 0x1200
/-- `CQL_ERROR_UNPREPARED`. -/
def cqlErrorUnprepared : Int := 0x2500

/-- The fields of an `ErrorResponse` that `on_error_response` reads. For an unavailable error
`received` is the number of replicas alive. -/
structure ErrorResponse where
  code : Int
  message : String
  consistency : CassConsistency
  received : Int
  required : Int
  dataPresent : Nat
  writeType : CassWriteType
  deriving DecidableEq, Repr

/-- A read timeout, a write timeout or an unavailable error: the errors the policies retry only
on an execution's first retry. -/
def ErrorResponse.isTimeout (error : ErrorResponse) : Bool :=
  error.code = cqlErrorReadTimeout || error.code = cqlErrorWriteTimeout ||
    error.code = cqlErrorUnavailable

/-- A write timeout, an overloaded host or a server error: the server may have applied the
request. -/
def ErrorResponse.mayHaveApplied (error : ErrorResponse) : Bool :=
  error.code = cqlErrorWriteTimeout || error.code = cqlErrorOverloaded ||
    error.code = cqlErrorServerError

namespace RequestExecution

open RetryPolicy

/-- What an execution keeps from one attempt to the next: `num_retries_`, and the
`retry_consistency_` of its `RequestCallback`, `UNKNOWN` until a retry sets it. -/
structure RetryState where
  numRetries : Nat
  retryConsistency : CassConsistency
  deriving DecidableEq, Repr

/-- A new execution. -/
def RetryState.new : RetryState := ⟨0, .unknown⟩

/-- `RequestCallback::consistency()`: the retry consistency once a retry has set it, else the
request's. -/
def RetryState.consistency (s : RetryState) (requestCl : CassConsistency) : CassConsistency :=
  if s.retryConsistency ≠ .unknown then s.retryConsistency else requestCl

/-- What `on_error_response` does with the request: return the error to the handler, send it again
on the same host or on the next one, set an empty result, or prepare the statement again
(`on_error_unprepared`). -/
inductive Outcome
  | returnError (error : ErrorResponse)
  | retryCurrentHost
  | retryNextHost
  | ignore
  | reprepare
  deriving DecidableEq, Repr

/-- The outcomes after which the execution sends the request again and waits for a response. -/
def Outcome.resends : Outcome → Bool
  | .retryCurrentHost | .retryNextHost | .reprepare => true
  | .returnError _ | .ignore => false

/-- The `switch` of `on_error_response` for the codes the retry policy decides on; the decision
stays `RETURN_ERROR` without a policy, for a request that is not idempotent where that matters, and
for any other code. `cl` is the execution's `consistency()`. -/
def errorDecision (policy : Option RetryPolicy) (idempotent : Bool) (cl : CassConsistency)
    (numRetries : Nat) (error : ErrorResponse) : RetryDecision :=
  if error.code = cqlErrorReadTimeout then
    match policy with
    | some p =>
      p.onReadTimeout error.consistency error.received error.required
        (decide (error.dataPresent > 0)) numRetries
    | none => .returnError
  else if error.code = cqlErrorWriteTimeout then
    match policy, idempotent with
    | some p, true =>
      p.onWriteTimeout error.consistency error.received error.required error.writeType numRetries
    | _, _ => .returnError
  else if error.code = cqlErrorUnavailable then
    match policy with
    | some p => p.onUnavailable error.consistency error.required error.received numRetries
    | none => .returnError
  -- `OVERLOADED` and `SERVER_ERROR` ask the same; the second also defuncts the connection
  else if error.code = cqlErrorOverloaded ∨ error.code = cqlErrorServerError then
    match policy, idempotent with
    | some p, true => p.onRequestError cl numRetries
    | _, _ => .returnError
  else .returnError

/-- What `on_error_response` leaves: the outcome, the execution's state, and whether it defuncted
the connection. -/
structure Handled where
  outcome : Outcome
  state : RetryState
  defunct : Bool
  deriving DecidableEq, Repr

/-- The `switch` on the decision's type that ends `on_error_response`: a retry sets
`retry_consistency_` and counts one more retry. -/
def processDecision (s : RetryState) (error : ErrorResponse) (decision : RetryDecision) :
    Outcome × RetryState :=
  match decision.type with
  | .returnError => (.returnError error, s)
  | .retry =>
    (if decision.retryCurrentHost then .retryCurrentHost else .retryNextHost,
      ⟨s.numRetries + 1, decision.retryCl⟩)
  | .ignore => (.ignore, s)

/-- `RequestExecution::on_error_response`: a bootstrapping host sends the request to the next
host and an unprepared statement is prepared again, both at once; otherwise the policy's decision
is carried out, and a server error defuncts the connection. -/
def onErrorResponse (policy : Option RetryPolicy) (idempotent : Bool)
    (requestCl : CassConsistency) (s : RetryState) (error : ErrorResponse) : Handled :=
  if error.code = cqlErrorIsBootstrapping then ⟨.retryNextHost, s, false⟩
  else if error.code = cqlErrorUnprepared then ⟨.reprepare, s, false⟩
  else
    let r := processDecision s error
      (errorDecision policy idempotent (s.consistency requestCl) s.numRetries error)
    ⟨r.1, r.2, decide (error.code = cqlErrorServerError)⟩

/-- The error responses the attempts of one execution receive, in order, as long as it sends the
request again: each with its outcome, and the state after the last. -/
def onErrorResponses (policy : Option RetryPolicy) (idempotent : Bool)
    (requestCl : CassConsistency) : RetryState → List ErrorResponse →
    List (ErrorResponse × Outcome) × RetryState
  | s, [] => ([], s)
  | s, error :: errors =>
    let h := onErrorResponse policy idempotent requestCl s error
    if h.outcome.resends then
      let r := onErrorResponses policy idempotent requestCl h.state errors
      ((error, h.outcome) :: r.1, r.2)
    else ([(error, h.outcome)], h.state)

/-! ### One error response -/

variable {policy : Option RetryPolicy} {idempotent : Bool} {requestCl cl : CassConsistency}
  {s : RetryState} {error : ErrorResponse} {numRetries : Nat}

lemma processDecision_resends (d : RetryDecision) :
    (processDecision s error d).1.resends = decide (d.type = .retry) := by
  rcases d with ⟨_ | _ | _, retryCl, _ | _⟩ <;> rfl

lemma processDecision_numRetries (d : RetryDecision) :
    (processDecision s error d).2.numRetries =
      if d.type = .retry then s.numRetries + 1 else s.numRetries := by
  rcases d with ⟨_ | _ | _, retryCl, retryCurrentHost⟩ <;> rfl

lemma processDecision_eq_ignore_iff (d : RetryDecision) :
    (processDecision s error d).1 = .ignore ↔ d.type = .ignore := by
  rcases d with ⟨_ | _ | _, retryCl, _ | _⟩ <;> simp [processDecision]

/-- The codes the policy decides on reach the end of `on_error_response`. -/
lemma onErrorResponse_of_decided (hb : error.code ≠ cqlErrorIsBootstrapping)
    (hu : error.code ≠ cqlErrorUnprepared) :
    onErrorResponse policy idempotent requestCl s error =
      ⟨(processDecision s error
          (errorDecision policy idempotent (s.consistency requestCl) s.numRetries error)).1,
        (processDecision s error
          (errorDecision policy idempotent (s.consistency requestCl) s.numRetries error)).2,
        decide (error.code = cqlErrorServerError)⟩ := by
  rw [onErrorResponse, if_neg hb, if_neg hu]

lemma numRetries_le_onErrorResponse :
    s.numRetries ≤ (onErrorResponse policy idempotent requestCl s error).state.numRetries := by
  unfold onErrorResponse
  split_ifs
  · exact Nat.le_refl _
  · exact Nat.le_refl _
  · rw [processDecision_numRetries]
    split_ifs <;> omega

/-- A read timeout, a write timeout or an unavailable error is returned after a first retry. -/
lemma errorDecision_of_isTimeout (h : error.isTimeout = true) (hn : numRetries ≠ 0) :
    errorDecision policy idempotent cl numRetries error = .returnError := by
  simp only [ErrorResponse.isTimeout, Bool.or_eq_true, decide_eq_true_eq] at h
  unfold errorDecision
  rcases h with (h | h) | h
  · rw [if_pos h]
    cases policy with
    | none => rfl
    | some p => exact p.onReadTimeout_of_ne_zero hn
  · rw [if_neg (by rw [h]; decide), if_pos h]
    cases policy with
    | none => rfl
    | some p =>
      cases idempotent with
      | false => rfl
      | true => exact p.onWriteTimeout_of_ne_zero hn
  · rw [if_neg (by rw [h]; decide), if_neg (by rw [h]; decide), if_pos h]
    cases policy with
    | none => rfl
    | some p => exact p.onUnavailable_of_ne_zero hn

lemma isTimeout_code (h : error.isTimeout = true) :
    error.code ≠ cqlErrorIsBootstrapping ∧ error.code ≠ cqlErrorUnprepared := by
  simp only [ErrorResponse.isTimeout, Bool.or_eq_true, decide_eq_true_eq] at h
  rcases h with (h | h) | h <;> rw [h] <;> decide

/-- An execution sends the request again after a read timeout, a write timeout or an unavailable
error only on its first retry, which that counts. -/
lemma onErrorResponse_timeout (h : error.isTimeout = true)
    (hr : (onErrorResponse policy idempotent requestCl s error).outcome.resends = true) :
    s.numRetries = 0 ∧ (onErrorResponse policy idempotent requestCl s error).state.numRetries = 1 := by
  obtain ⟨hb, hu⟩ := isTimeout_code h
  rw [onErrorResponse_of_decided hb hu] at hr ⊢
  rw [processDecision_resends, decide_eq_true_eq] at hr
  have hz : s.numRetries = 0 := by
    by_contra hn
    rw [errorDecision_of_isTimeout h hn] at hr
    cases hr
  refine ⟨hz, ?_⟩
  rw [processDecision_numRetries, if_pos hr, hz]

/-- A request that is not idempotent is not sent again after an error that the server may have
applied. -/
lemma onErrorResponse_nonIdempotent (h : error.mayHaveApplied = true) :
    (onErrorResponse policy false requestCl s error).outcome.resends = false := by
  simp only [ErrorResponse.mayHaveApplied, Bool.or_eq_true, decide_eq_true_eq] at h
  have hcodes : error.code ≠ cqlErrorIsBootstrapping ∧ error.code ≠ cqlErrorUnprepared ∧
      error.code ≠ cqlErrorReadTimeout ∧ error.code ≠ cqlErrorUnavailable := by
    rcases h with (h | h) | h <;> rw [h] <;> decide
  obtain ⟨hb, hu, hrt, hun⟩ := hcodes
  have hdec : errorDecision policy false (s.consistency requestCl) s.numRetries error =
      .returnError := by
    unfold errorDecision
    rw [if_neg hrt]
    split_ifs with hwt hos
    · cases policy <;> rfl
    · cases policy <;> rfl
    · exfalso
      rcases h with (h | h) | h
      · exact hwt h
      · exact hos (.inl h)
      · exact hos (.inr h)
  rw [onErrorResponse_of_decided hb hu, processDecision_resends, hdec]
  rfl

/-- Whether the policy's decision ignores the error. -/
lemma errorDecision_type_eq_ignore_iff :
    (errorDecision policy idempotent cl numRetries error).type = .ignore ↔
      policy.map RetryPolicy.base = some .downgrading ∧ idempotent = true ∧
        error.code = cqlErrorWriteTimeout ∧ numRetries = 0 ∧
        (error.writeType = .simple ∨ error.writeType = .batch) ∧ error.received > 0 := by
  unfold errorDecision
  by_cases hrt : error.code = cqlErrorReadTimeout
  · -- a read timeout is never ignored
    rw [if_pos hrt]
    refine iff_of_false ?_ (fun h => absurd (hrt.symm.trans h.2.2.1) (by decide))
    cases policy with
    | none => simp
    | some p => exact p.onReadTimeout_type_ne_ignore
  rw [if_neg hrt]
  by_cases hwt : error.code = cqlErrorWriteTimeout
  · rw [if_pos hwt]
    cases policy with
    | none => simp
    | some p =>
      cases idempotent with
      | false => simp
      | true => simp [p.onWriteTimeout_type_eq_ignore_iff, hwt]
  rw [if_neg hwt]
  refine iff_of_false ?_ (fun h => hwt h.2.2.1)
  split_ifs
  · cases policy with
    | none => simp
    | some p => exact p.onUnavailable_type_ne_ignore
  · cases policy with
    | none => simp
    | some p =>
      cases idempotent with
      | false => simp
      | true => exact p.onRequestError_type_ne_ignore
  · simp

/-- An execution answers an error with an empty result only under the downgrading policy, for an
idempotent request, after a write timeout of a simple or batch write that some replica
acknowledged, and before any retry. -/
theorem onErrorResponse_ignore_iff (policy : Option RetryPolicy) (idempotent : Bool)
    (requestCl : CassConsistency) (s : RetryState) (error : ErrorResponse) :
    (onErrorResponse policy idempotent requestCl s error).outcome = .ignore ↔
      policy.map RetryPolicy.base = some .downgrading ∧ idempotent = true ∧
        error.code = cqlErrorWriteTimeout ∧ s.numRetries = 0 ∧
        (error.writeType = .simple ∨ error.writeType = .batch) ∧ error.received > 0 := by
  by_cases hb : error.code = cqlErrorIsBootstrapping
  · rw [onErrorResponse, if_pos hb]
    exact iff_of_false (by simp) (fun h => absurd (hb.symm.trans h.2.2.1) (by decide))
  by_cases hu : error.code = cqlErrorUnprepared
  · rw [onErrorResponse, if_neg hb, if_pos hu]
    exact iff_of_false (by simp) (fun h => absurd (hu.symm.trans h.2.2.1) (by decide))
  rw [onErrorResponse_of_decided hb hu, processDecision_eq_ignore_iff,
    errorDecision_type_eq_ignore_iff]

/-! ### The attempts of an execution -/

/-- Each outcome of a run is that of `on_error_response` at some state the run went through. -/
lemma mem_onErrorResponses {p : ErrorResponse × Outcome} :
    ∀ {s : RetryState} {errors : List ErrorResponse},
      p ∈ (onErrorResponses policy idempotent requestCl s errors).1 →
        ∃ s', p.2 = (onErrorResponse policy idempotent requestCl s' p.1).outcome := by
  intro s errors
  induction errors generalizing s with
  | nil =>
    intro hp
    cases hp
  | cons error errors ih =>
    intro hp
    simp only [onErrorResponses] at hp
    split_ifs at hp
    · rcases List.mem_cons.mp hp with rfl | hp
      · exact ⟨s, rfl⟩
      · exact ih hp
    · rw [List.mem_singleton] at hp
      subst hp
      exact ⟨s, rfl⟩

/-- Counted from a state, the retries that follow a timeout or an unavailable error: one at most
while no retry has happened, none after. -/
lemma timeoutRetries_le (s : RetryState) (errors : List ErrorResponse) :
    ((onErrorResponses policy idempotent requestCl s errors).1.filter
        fun p => p.1.isTimeout && p.2.resends).length ≤ if s.numRetries = 0 then 1 else 0 := by
  -- one response at a time; `num_retries_` only grows
  induction errors generalizing s with
  | nil => simp [onErrorResponses]
  | cons error errors ih =>
    have hmono : s.numRetries ≤
        (onErrorResponse policy idempotent requestCl s error).state.numRetries :=
      numRetries_le_onErrorResponse
    simp only [onErrorResponses]
    by_cases hres : (onErrorResponse policy idempotent requestCl s error).outcome.resends = true
    · have hrest := ih (onErrorResponse policy idempotent requestCl s error).state
      rw [if_pos hres, List.filter_cons]
      by_cases ht : error.isTimeout = true
      · -- the first retry: none follows
        obtain ⟨hz, hone⟩ := onErrorResponse_timeout ht hres
        rw [hone, if_neg Nat.one_ne_zero] at hrest
        rw [if_pos (by simp [ht, hres]), List.length_cons, if_pos hz]
        omega
      · rw [if_neg (by simp [ht])]
        refine Nat.le_trans hrest ?_
        split_ifs <;> omega
    · rw [if_neg hres]
      simp [hres]

/-- Whatever the retry policy, an execution retries at most once after a read timeout, a write
timeout or an unavailable error, over all the error responses its attempts receive. -/
theorem timeoutRetries_le_one (policy : Option RetryPolicy) (idempotent : Bool)
    (requestCl : CassConsistency) (errors : List ErrorResponse) :
    ((onErrorResponses policy idempotent requestCl .new errors).1.filter
        fun p => p.1.isTimeout && p.2.resends).length ≤ 1 :=
  timeoutRetries_le .new errors

/-- A request that is not idempotent is never sent again after a write timeout, an overloaded
host or a server error, whatever the retry policy and at any point of its attempts. -/
theorem nonIdempotent_not_resent (policy : Option RetryPolicy) (requestCl : CassConsistency)
    (s : RetryState) (errors : List ErrorResponse) :
    (onErrorResponses policy false requestCl s errors).1.filter
        (fun p => p.1.mayHaveApplied && p.2.resends) = [] := by
  rw [List.filter_eq_nil_iff]
  intro p hp
  obtain ⟨s', hs'⟩ := mem_onErrorResponses hp
  cases hm : p.1.mayHaveApplied with
  | false => simp
  | true => simp [hs', onErrorResponse_nonIdempotent hm]

end RequestExecution

end CassandraDriver
