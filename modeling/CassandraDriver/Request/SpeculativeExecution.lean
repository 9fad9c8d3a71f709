import Mathlib.Data.List.Basic

/-!
# Speculative executions of a request

A `RequestHandler` runs its request through one `RequestExecution` or more: the first, made when
an I/O worker takes the request, and one more each time an execution starts and the speculative
execution plan gives a delay (`schedule_next_execution`). The executions share the handler's
query plan and its future. The first of them to set the future stops the request: `stop_request`
cancels every execution, gives back the reference `add_execution` took, and tells the I/O worker
the request is finished. An execution that runs out of hosts reports
`CASS_ERROR_LIB_NO_HOSTS_AVAILABLE`, which sets the future only when no other execution is left:
`running_executions_` counts the executions made and not yet out of hosts.

Each event below is one callback on the I/O worker's thread, and the events of the executions
interleave in any order. An execution cancelled while it writes or waits may still report; the
future is then set already, and its report changes nothing but the count. Over every run
(`RequestHandler.speculative_exact`) the future, once set, never changes; `stop_request` runs
once if and only if the future is set, and then it has cancelled and released every execution
once and finished the request once; the future is set to `NO_HOSTS_AVAILABLE` only when every
execution made has run out of hosts; and once every execution made has reported, the future is
set.
-/

namespace CassandraDriver

namespace RequestExecution

/-- Where a `RequestExecution` is: made and waiting to execute (on its `schedule_timer_`, or about
to be executed), executing on the hosts of the plan (writing, waiting for a response, retrying),
done after it reported a response or an error, or done after it ran out of hosts. -/
inductive Phase
  | scheduled
  | executing
  | finished
  | exhausted
  deriving DecidableEq, Repr

end RequestExecution

/-- A `RequestExecution` as its handler sees it: its phase, whether it is cancelled, and how often
`stop_request` cancelled it and gave back its reference. -/
structure RequestExecution where
  phase : RequestExecution.Phase
  cancelled : Bool
  cancels : Nat
  releases : Nat
  deriving DecidableEq, Repr

namespace RequestExecution

/-- An execution as `add_execution` registers it, before it runs. -/
def new : RequestExecution := ⟨.scheduled, false, 0, 0⟩

/-- One round of the loop of `stop_request`: `cancel()`, which stops `schedule_timer_` and sets
the state `REQUEST_STATE_CANCELLED`, then `dec_ref()`. -/
def stop (e : RequestExecution) : RequestExecution :=
  { e with cancelled := true, cancels := e.cancels + 1, releases := e.releases + 1 }

@[simp] lemma phase_stop (e : RequestExecution) : e.stop.phase = e.phase := rfl
@[simp] lemma cancelled_stop (e : RequestExecution) : e.stop.cancelled = true := rfl
@[simp] lemma cancels_stop (e : RequestExecution) : e.stop.cancels = e.cancels + 1 := rfl
@[simp] lemma releases_stop (e : RequestExecution) : e.stop.releases = e.releases + 1 := rfl

end RequestExecution

namespace RequestHandler

/-- What the future of the request is set to: a response, an error an execution reports,
`CASS_ERROR_LIB_NO_HOSTS_AVAILABLE`, or `CASS_ERROR_LIB_REQUEST_TIMED_OUT`. -/
inductive Outcome
  | response
  | error
  | noHostsAvailable
  | requestTimedOut
  deriving DecidableEq, Repr

end RequestHandler

/-- A `RequestHandler`: its future, `running_executions_`, `request_executions_`, whether its
request timer runs, and how often it ran `stop_request` and `IOWorker::request_finished`. -/
structure RequestHandler where
  future : Option RequestHandler.Outcome
  runningExecutions : Int
  executions : List RequestExecution
  timerRunning : Bool
  stops : Nat
  requestsFinished : Nat

namespace RequestHandler

open RequestExecution (Phase)

/-- `add_execution`: count the new execution and keep it. -/
def addExecution (h : RequestHandler) : RequestHandler :=
  { h with runningExecutions := h.runningExecutions + 1
           executions := h.executions ++ [RequestExecution.new] }

/-- `IOWorker::on_execute` takes the request: `start_request` starts the request timer when the
request has a timeout, and the first execution is made. -/
def start (hasTimeout : Bool) : RequestHandler :=
  addExecution ⟨none, 0, [], hasTimeout, 0, 0⟩

/-- `stop_request` -/
def stopRequest (h : RequestHandler) : RequestHandler :=
  { h with timerRunning := false
           executions := h.executions.map RequestExecution.stop
           stops := h.stops + 1
           requestsFinished := h.requestsFinished + 1 }

/-- A `set_response` or `set_error` of the future, which sets it only when it is not set, then
`stop_request` when it did. -/
def setFuture (h : RequestHandler) (o : Outcome) : RequestHandler :=
  match h.future with
  | some _ => h
  | none => stopRequest { h with future := some o }

/-- Execution `i`, which is `e`, moves on to phase `p`. -/
def setPhase (h : RequestHandler) (i : Nat) (e : RequestExecution) (p : Phase) :
    RequestHandler :=
  { h with executions := h.executions.set i { e with phase := p } }

/-- A report of execution `i`, which must be executing; it moves on to phase `p`. -/
def report (h : RequestHandler) (i : Nat) (p : Phase) : Option RequestHandler :=
  match h.executions[i]? with
  | some e => if e.phase = .executing then some (h.setPhase i e p) else none
  | none => none

/-- The callbacks of a request and its executions. -/
inductive Event
  /-- `execute()` of execution `i`, first or on its timer: `schedule_next_execution`, which makes
  a new execution when the speculative plan gives a delay, then `IOWorker::retry`. -/
  | execute (i : Nat) (scheduleNext : Bool)
  /-- `set_response` from execution `i`. -/
  | setResponse (i : Nat)
  /-- A `set_error` from execution `i` with an error other than `NO_HOSTS_AVAILABLE`. -/
  | setError (i : Nat)
  /-- Execution `i` retries on the next host of the plan. -/
  | retryNextHost (i : Nat)
  /-- `IOWorker::retry` of execution `i` ran out of hosts. -/
  | noHostsAvailable (i : Nat)
  /-- `on_timeout` of the request timer. -/
  | timeout

/-- One callback; `none` when it cannot happen. -/
def step (h : RequestHandler) : Event → Option RequestHandler
  | .execute i scheduleNext =>
    match h.executions[i]? with
    | some e =>
      -- `cancel()` stops the timer of an execution that has not started
      if e.phase = .scheduled ∧ e.cancelled = false then
        let h := h.setPhase i e .executing
        some (if scheduleNext then h.addExecution else h)
      else none
    | none => none
  | .setResponse i => (h.report i .finished).map (·.setFuture .response)
  | .setError i => (h.report i .finished).map (·.setFuture .error)
  | .retryNextHost i => h.report i .executing
  | .noHostsAvailable i => (h.report i .exhausted).map fun h =>
      -- `--running_executions_ > 0` passes the error over while another execution is left
      let h := { h with runningExecutions := h.runningExecutions - 1 }
      if 0 < h.runningExecutions then h else h.setFuture .noHostsAvailable
  | .timeout => if h.timerRunning then some (h.setFuture .requestTimedOut) else none

/-- A run of callbacks, stopped by one that cannot happen. -/
def run (h : RequestHandler) : List Event → Option RequestHandler
  | [] => some h
  | ev :: evs => (h.step ev).bind fun h' => h'.run evs

/-- The states that some interleaving of callbacks reaches from the start of a request. -/
inductive Reachable : RequestHandler → Prop
  | start (hasTimeout : Bool) : Reachable (start hasTimeout)
  | step {h h' : RequestHandler} (ev : Event) : Reachable h → h.step ev = some h' → Reachable h'

/-! ### What each operation changes -/

section Operations

variable (h : RequestHandler)

@[simp] lemma future_stopRequest : h.stopRequest.future = h.future := rfl
@[simp] lemma runningExecutions_stopRequest :
    h.stopRequest.runningExecutions = h.runningExecutions := rfl
@[simp] lemma executions_stopRequest :
    h.stopRequest.executions = h.executions.map RequestExecution.stop := rfl
@[simp] lemma stops_stopRequest : h.stopRequest.stops = h.stops + 1 := rfl
@[simp] lemma requestsFinished_stopRequest :
    h.stopRequest.requestsFinished = h.requestsFinished + 1 := rfl

variable (i : Nat) (e : RequestExecution) (p : Phase)

@[simp] lemma future_setPhase : (h.setPhase i e p).future = h.future := rfl
@[simp] lemma runningExecutions_setPhase :
    (h.setPhase i e p).runningExecutions = h.runningExecutions := rfl
@[simp] lemma stops_setPhase : (h.setPhase i e p).stops = h.stops := rfl
@[simp] lemma requestsFinished_setPhase :
    (h.setPhase i e p).requestsFinished = h.requestsFinished := rfl
@[simp] lemma length_setPhase :
    (h.setPhase i e p).executions.length = h.executions.length := List.length_set

end Operations

section Lemmas

variable {h h' : RequestHandler} {i : Nat} {e x : RequestExecution} {p : Phase} {o : Outcome}

/-- Setting the future leaves it set, to what it held already if it was set. -/
lemma future_setFuture (h : RequestHandler) (o : Outcome) :
    (h.setFuture o).future = some (h.future.getD o) := by
  unfold setFuture
  cases hf : h.future with
  | some _ => simpa using hf
  | none => rfl

lemma runningExecutions_setFuture (h : RequestHandler) (o : Outcome) :
    (h.setFuture o).runningExecutions = h.runningExecutions := by
  unfold setFuture
  cases h.future <;> rfl

/-- Setting the future changes no phase. -/
lemma mem_setFuture (hx : x ∈ (h.setFuture o).executions) : ∃ y ∈ h.executions, x.phase = y.phase := by
  unfold setFuture at hx
  cases hf : h.future with
  | some _ =>
    rw [hf] at hx
    exact ⟨x, hx, rfl⟩
  | none =>
    rw [hf, executions_stopRequest, List.mem_map] at hx
    obtain ⟨y, hy, rfl⟩ := hx
    exact ⟨y, hy, RequestExecution.phase_stop y⟩

/-- What a report can do: the execution was executing, and it moves on. -/
lemma report_eq_some (hr : h.report i p = some h') :
    ∃ e, h.executions[i]? = some e ∧ e.phase = .executing ∧ h' = h.setPhase i e p := by
  unfold report at hr
  split at hr
  · rename_i e he
    split_ifs at hr with hp
    exact ⟨e, he, hp, (Option.some.inj hr).symm⟩
  · cases hr

/-- The executions after a phase change are those before, but for `e`, which now has phase
`p`. -/
lemma mem_setPhase (hx : x ∈ (h.setPhase i e p).executions) :
    x ∈ h.executions ∨ x = { e with phase := p } :=
  List.mem_or_eq_of_mem_set hx

/-- The number of executions out of hosts. -/
def exhaustedCount (h : RequestHandler) : Nat :=
  h.executions.countP fun e => e.phase = .exhausted

/-- A phase change moves the count of executions out of hosts by what it does to `e`. -/
lemma exhaustedCount_setPhase (he : h.executions[i]? = some e) :
    (h.setPhase i e p).exhaustedCount + (if e.phase = .exhausted then 1 else 0) =
      h.exhaustedCount + (if p = .exhausted then 1 else 0) := by
  obtain ⟨hi, rfl⟩ := List.getElem?_eq_some_iff.mp he
  have hle := List.boole_getElem_le_countP (p := fun e => decide (e.phase = .exhausted)) hi
  rw [exhaustedCount, setPhase, List.countP_set hi, exhaustedCount]
  simp only [decide_eq_true_eq] at hle ⊢
  omega

/-! ### The invariant -/

/-- The counting facts: `running_executions_` is the number of executions not out of hosts, and
`stop_request` has run, cancelling and releasing every execution, exactly when the future is
set. -/
structure Core (h : RequestHandler) : Prop where
  running_eq : h.runningExecutions = h.executions.length - h.exhaustedCount
  stops_eq : h.stops = if h.future.isSome then 1 else 0
  requestsFinished_eq : h.requestsFinished = h.stops
  stopped : ∀ e ∈ h.executions,
    e.cancels = h.stops ∧ e.releases = h.stops ∧ e.cancelled = h.future.isSome

/-- What holds of every reachable handler: the counts, and when the future is set. -/
structure Inv (h : RequestHandler) : Prop extends Core h where
  noHosts : h.future = some .noHostsAvailable → ∀ e ∈ h.executions, e.phase = .exhausted
  set_of_finished : ∀ e ∈ h.executions, e.phase = .finished → h.future.isSome
  set_of_running_le : h.runningExecutions ≤ 0 → h.future.isSome

lemma inv_start (hasTimeout : Bool) : Inv (start hasTimeout) where
  running_eq := rfl
  stops_eq := rfl
  requestsFinished_eq := rfl
  stopped := by simp [start, addExecution, RequestExecution.new]
  noHosts := by simp [start, addExecution]
  set_of_finished := by simp [start, addExecution, RequestExecution.new]
  set_of_running_le := by simp [start, addExecution]

/-- A handler whose future is not set: nothing is stopped or cancelled. -/
lemma Core.of_future_none (hc : Core h) (hf : h.future = none) :
    h.stops = 0 ∧ h.requestsFinished = 0 ∧ ∀ e ∈ h.executions,
      e.cancels = 0 ∧ e.releases = 0 ∧ e.cancelled = false := by
  have hstops : h.stops = 0 := by rw [hc.stops_eq, hf]; rfl
  refine ⟨hstops, by rw [hc.requestsFinished_eq, hstops], fun e he => ?_⟩
  obtain ⟨hcancels, hreleases, hcancelled⟩ := hc.stopped e he
  rw [hf] at hcancelled
  exact ⟨hcancels.trans hstops, hreleases.trans hstops, hcancelled⟩

/-- `stop_request` after the first setting of the future keeps the counts. -/
lemma Core.setFuture (hc : Core h) : Core (h.setFuture o) := by
  unfold RequestHandler.setFuture
  cases hf : h.future with
  | some _ => simpa [hf] using hc
  | none =>
    obtain ⟨hstops, hfinished, hexec⟩ := hc.of_future_none hf
    refine ⟨?_, ?_, ?_, ?_⟩
    · have hcount : (h.executions.map RequestExecution.stop).countP
          (fun e => e.phase = .exhausted) = h.exhaustedCount := by
        rw [List.countP_map]
        rfl
      simp only [executions_stopRequest, runningExecutions_stopRequest, exhaustedCount,
        List.length_map] at hcount ⊢
      rw [hcount, hc.running_eq, exhaustedCount]
    · simp [hstops]
    · simp [hstops, hfinished]
    · intro e he
      simp only [executions_stopRequest, List.mem_map] at he
      obtain ⟨e', he', rfl⟩ := he
      obtain ⟨hcancels, hreleases, -⟩ := hexec e' he'
      simp [hstops, hcancels, hreleases]

/-- Setting the future gives the invariant, when the value it holds after is
`NO_HOSTS_AVAILABLE` only if every execution is out of hosts. -/
lemma Inv.setFuture (hc : Core h)
    (hno : h.future.getD o = .noHostsAvailable → ∀ e ∈ h.executions, e.phase = .exhausted) :
    Inv (h.setFuture o) where
  toCore := hc.setFuture
  noHosts := by
    intro hset x hx
    rw [future_setFuture, Option.some.injEq] at hset
    obtain ⟨y, hy, hphase⟩ := mem_setFuture hx
    rw [hphase]
    exact hno hset y hy
  set_of_finished := fun _ _ _ => by rw [future_setFuture]; rfl
  set_of_running_le := fun _ => by rw [future_setFuture]; rfl

/-- A phase change of an execution that is not out of hosts, to a phase that is not, keeps the
counts. -/
lemma Core.setPhase (hc : Core h) (he : h.executions[i]? = some e) (hne : e.phase ≠ .exhausted)
    (hp : p ≠ .exhausted) : Core (h.setPhase i e p) where
  running_eq := by
    have hcount := exhaustedCount_setPhase (p := p) he
    rw [if_neg hne, if_neg hp] at hcount
    rw [runningExecutions_setPhase, length_setPhase, hc.running_eq]
    omega
  stops_eq := hc.stops_eq
  requestsFinished_eq := hc.requestsFinished_eq
  stopped := by
    intro x hx
    rcases mem_setPhase hx with hx | rfl
    · exact hc.stopped x hx
    · exact hc.stopped e (List.mem_of_getElem? he)

/-- An execution that runs out of hosts is counted out. -/
lemma Core.setPhase_exhausted (hc : Core h) (he : h.executions[i]? = some e)
    (hne : e.phase ≠ .exhausted) :
    Core { h.setPhase i e .exhausted with runningExecutions := h.runningExecutions - 1 } where
  running_eq := by
    have hcount := exhaustedCount_setPhase (p := .exhausted) he
    rw [if_neg hne, if_pos rfl] at hcount
    have hrun := hc.running_eq
    simp only [exhaustedCount, length_setPhase] at hcount hrun ⊢
    omega
  stops_eq := hc.stops_eq
  requestsFinished_eq := hc.requestsFinished_eq
  stopped := by
    intro x hx
    rcases mem_setPhase hx with hx | rfl
    · exact hc.stopped x hx
    · exact hc.stopped e (List.mem_of_getElem? he)

/-- With no execution left running, every execution is out of hosts. -/
lemma Core.all_exhausted (hc : Core h) (hle : h.runningExecutions ≤ 0) :
    ∀ e ∈ h.executions, e.phase = .exhausted := by
  have hcount : h.exhaustedCount = h.executions.length := by
    have hle' : h.exhaustedCount ≤ h.executions.length := List.countP_le_length
    have hrun := hc.running_eq
    omega
  simpa [exhaustedCount] using hcount

/-- While an execution has not run out of hosts, the future is not `NO_HOSTS_AVAILABLE`. -/
lemma Inv.future_ne_noHosts (hi : Inv h) (he : h.executions[i]? = some e)
    (hne : e.phase ≠ .exhausted) : h.future ≠ some .noHostsAvailable :=
  fun hf => hne (hi.noHosts hf e (List.mem_of_getElem? he))

/-- Setting the future to anything but `NO_HOSTS_AVAILABLE` when it does not hold it: the
value it holds after is not `NO_HOSTS_AVAILABLE` either. -/
lemma getD_ne_noHosts (hf : h.future ≠ some .noHostsAvailable) (ho : o ≠ .noHostsAvailable) :
    h.future.getD o ≠ .noHostsAvailable := by
  cases hfut : h.future with
  | none => exact ho
  | some v =>
    rw [hfut] at hf
    exact fun hv => hf (by rw [Option.getD_some] at hv; rw [hv])

/-- A phase change to a phase that neither finishes nor exhausts an execution. -/
lemma Inv.setPhase (hi : Inv h) (he : h.executions[i]? = some e) (hne : e.phase ≠ .exhausted)
    (hp : p ≠ .exhausted) (hpf : p ≠ .finished) : Inv (h.setPhase i e p) where
  toCore := hi.toCore.setPhase he hne hp
  noHosts := fun hf => absurd hf (hi.future_ne_noHosts he hne)
  set_of_finished := by
    intro x hx hfin
    rcases mem_setPhase hx with hx | rfl
    · exact hi.set_of_finished x hx hfin
    · exact absurd hfin hpf
  set_of_running_le := hi.set_of_running_le

/-- `add_execution` before the future is set. -/
lemma Inv.addExecution (hi : Inv h) (hf : h.future = none) : Inv h.addExecution where
  running_eq := by
    have hrun := hi.running_eq
    simp only [RequestHandler.addExecution, exhaustedCount, List.countP_append,
      List.length_append] at hrun ⊢
    simp [RequestExecution.new]
    omega
  stops_eq := hi.stops_eq
  requestsFinished_eq := hi.requestsFinished_eq
  stopped := by
    intro x hx
    rcases List.mem_append.mp hx with hx | hx
    · exact hi.stopped x hx
    · obtain ⟨hstops, -, -⟩ := hi.toCore.of_future_none hf
      rw [List.mem_singleton.mp hx]
      simp [RequestHandler.addExecution, RequestExecution.new, hstops, hf]
  noHosts := fun hno => absurd hno (by simp [RequestHandler.addExecution, hf])
  set_of_finished := by
    intro x hx hfin
    rcases List.mem_append.mp hx with hx | hx
    · exact hi.set_of_finished x hx hfin
    · rw [List.mem_singleton.mp hx] at hfin
      cases hfin
  set_of_running_le := fun hle => hi.set_of_running_le (by
    simp only [RequestHandler.addExecution] at hle
    omega)

/-- A report of a response or an error, and the setting of the future that follows it. -/
lemma Inv.report_setFuture (hi : Inv h) (hr : h.report i .finished = some h')
    (ho : o ≠ .noHostsAvailable) : Inv (h'.setFuture o) := by
  obtain ⟨e, he, hexec, rfl⟩ := report_eq_some hr
  have hne : e.phase ≠ .exhausted := by rw [hexec]; decide
  refine Inv.setFuture (hi.toCore.setPhase he hne (by decide)) fun hno => ?_
  exact absurd hno (getD_ne_noHosts (hi.future_ne_noHosts he hne) ho)

/-- An execution out of hosts: the count goes down, and the future is set when it reaches
zero. -/
lemma Inv.report_exhausted (hi : Inv h) (hr : h.report i .exhausted = some h') :
    Inv (if 0 < h'.runningExecutions - 1 then
        { h' with runningExecutions := h'.runningExecutions - 1 }
      else { h' with runningExecutions := h'.runningExecutions - 1 }.setFuture .noHostsAvailable) := by
  obtain ⟨e, he, hexec, rfl⟩ := report_eq_some hr
  have hne : e.phase ≠ .exhausted := by rw [hexec]; decide
  have hc := hi.toCore.setPhase_exhausted he hne
  split_ifs with hpos
  · refine ⟨hc, fun hf => absurd hf (hi.future_ne_noHosts he hne), ?_, fun hle => ?_⟩
    · intro x hx hfin
      rcases mem_setPhase hx with hx | rfl
      · exact hi.set_of_finished x hx hfin
      · cases hfin
    · exact absurd hle (by simpa using hpos)
  · refine Inv.setFuture hc fun _ => hc.all_exhausted ?_
    show h.runningExecutions - 1 ≤ 0
    simp only [runningExecutions_setPhase] at hpos
    omega

lemma Inv.step (hi : Inv h) {ev : Event} (hs : h.step ev = some h') : Inv h' := by
  cases ev with
  | execute i scheduleNext =>
    simp only [RequestHandler.step] at hs
    split at hs
    · rename_i e he
      by_cases hguard : e.phase = .scheduled ∧ e.cancelled = false
      · rw [if_pos hguard] at hs
        obtain ⟨hsched, hcancel⟩ := hguard
        -- an execution that is not cancelled runs before the future is set
        have hf : h.future = none := by
          have hset := (hi.stopped e (List.mem_of_getElem? he)).2.2
          rw [hcancel] at hset
          cases hfut : h.future with
          | none => rfl
          | some _ => simp [hfut] at hset
        have hne : e.phase ≠ .exhausted := by rw [hsched]; decide
        have h1 := hi.setPhase (p := .executing) he hne (by decide) (by decide)
        rw [← Option.some.inj hs]
        cases scheduleNext
        · exact h1
        · exact h1.addExecution hf
      · rw [if_neg hguard] at hs
        cases hs
    · cases hs
  | setResponse i =>
    obtain ⟨h1, hr, rfl⟩ := Option.map_eq_some_iff.mp hs
    exact hi.report_setFuture hr (by decide)
  | setError i =>
    obtain ⟨h1, hr, rfl⟩ := Option.map_eq_some_iff.mp hs
    exact hi.report_setFuture hr (by decide)
  | retryNextHost i =>
    obtain ⟨e, he, hexec, rfl⟩ := report_eq_some hs
    exact hi.setPhase he (by rw [hexec]; decide) (by decide) (by decide)
  | noHostsAvailable i =>
    obtain ⟨h1, hr, rfl⟩ := Option.map_eq_some_iff.mp hs
    exact hi.report_exhausted hr
  | timeout =>
    simp only [RequestHandler.step] at hs
    split_ifs at hs
    rw [← Option.some.inj hs]
    refine Inv.setFuture hi.toCore fun hno => ?_
    cases hf : h.future with
    | none => rw [hf] at hno; cases hno
    | some v =>
      rw [hf, Option.getD_some] at hno
      exact hi.noHosts (by rw [hf, hno])

lemma Reachable.run (hr : Reachable h) (evs : List Event) (hrun : h.run evs = some h') :
    Reachable h' := by
  induction evs generalizing h with
  | nil => exact Option.some.inj hrun ▸ hr
  | cons ev evs ih =>
    obtain ⟨h1, hs, hrest⟩ := Option.bind_eq_some_iff.mp hrun
    exact ih (hr.step ev hs) hrest

lemma Reachable.inv (hr : Reachable h) : Inv h := by
  induction hr with
  | start hasTimeout => exact inv_start hasTimeout
  | step ev _ hs ih => exact ih.step hs

/-- A set future keeps its value: every later `set_*` returns false. -/
lemma future_step {ev : Event} (hs : h.step ev = some h') (hf : h.future = some o) :
    h'.future = some o := by
  have hset : ∀ h₁ : RequestHandler, h₁.future = some o → ∀ o', (h₁.setFuture o').future = some o :=
    fun h₁ hf₁ o' => by rw [future_setFuture, hf₁, Option.getD_some]
  cases ev with
  | execute i scheduleNext =>
    simp only [RequestHandler.step] at hs
    split at hs
    · split_ifs at hs <;> rw [← Option.some.inj hs] <;> exact hf
    · cases hs
  | setResponse i | setError i =>
    obtain ⟨h1, hr, rfl⟩ := Option.map_eq_some_iff.mp hs
    obtain ⟨e, -, -, rfl⟩ := report_eq_some hr
    exact hset (h.setPhase i e _) hf _
  | retryNextHost i =>
    obtain ⟨e, -, -, rfl⟩ := report_eq_some hs
    exact hf
  | noHostsAvailable i =>
    obtain ⟨h1, hr, rfl⟩ := Option.map_eq_some_iff.mp hs
    obtain ⟨e, -, -, rfl⟩ := report_eq_some hr
    dsimp only
    split_ifs
    · exact hf
    · exact hset { h.setPhase i e _ with runningExecutions := h.runningExecutions - 1 } hf _
  | timeout =>
    simp only [RequestHandler.step] at hs
    split_ifs at hs
    rw [← Option.some.inj hs]
    exact hset _ hf _

end Lemmas

/-- Over every interleaving of the callbacks, with any number of speculative executions: once
set, the future keeps its value; `stop_request` has run once if the future is set and never
otherwise, and each time it cancelled and released every execution made and finished the
request; the future is `NO_HOSTS_AVAILABLE` only when every execution made has run out of
hosts; and once every execution made has reported a response, an error or that it ran out of
hosts, the future is set. -/
theorem speculative_exact {h : RequestHandler} (hr : Reachable h) :
    (∀ (ev : Event) (h' : RequestHandler) (o : Outcome), h.step ev = some h' →
      h.future = some o → h'.future = some o) ∧
    h.stops = (if h.future.isSome then 1 else 0) ∧ h.requestsFinished = h.stops ∧
    (∀ e ∈ h.executions, e.cancels = h.stops ∧ e.releases = h.stops) ∧
    (h.future = some .noHostsAvailable → ∀ e ∈ h.executions, e.phase = .exhausted) ∧
    ((∀ e ∈ h.executions, e.phase = .finished ∨ e.phase = .exhausted) → h.future.isSome) := by
  have hi := hr.inv
  refine ⟨fun ev h' o hs hf => future_step hs hf, hi.stops_eq, hi.requestsFinished_eq,
    fun e he => ⟨(hi.stopped e he).1, (hi.stopped e he).2.1⟩, hi.noHosts, fun hdone => ?_⟩
  by_cases hfin : ∃ e ∈ h.executions, e.phase = .finished
  · obtain ⟨e, he, hphase⟩ := hfin
    exact hi.set_of_finished e he hphase
  · -- every execution ran out of hosts, so none is left running
    simp only [not_exists, not_and] at hfin
    have hall : ∀ e ∈ h.executions, e.phase = .exhausted :=
      fun e he => (hdone e he).resolve_left (hfin e he)
    have hcount : h.exhaustedCount = h.executions.length := by
      simpa [exhaustedCount] using hall
    exact hi.set_of_running_le (by rw [hi.running_eq, hcount]; omega)

/-- The first execution schedules a speculative one and runs out of hosts; the speculative one
then starts and runs out of hosts too, and only that sets the future. -/
theorem speculative_exact_bothExhausted :
    ∃ h, (start true).run [.execute 0 true, .noHostsAvailable 0, .execute 1 false,
        .noHostsAvailable 1] = some h ∧ h.future = some .noHostsAvailable ∧
      ∀ e ∈ h.executions, e.phase = .exhausted :=
  ⟨_, rfl, rfl, (speculative_exact ((Reachable.start true).run
    [.execute 0 true, .noHostsAvailable 0, .execute 1 false, .noHostsAvailable 1] rfl)).2.2.2.2.1
    rfl⟩

end RequestHandler

end CassandraDriver
