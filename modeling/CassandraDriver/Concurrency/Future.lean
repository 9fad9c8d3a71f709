import Mathlib.Logic.Function.Basic

/-!
# Futures across threads

`Future` guards its state with one mutex. Every section of its methods that holds the mutex only
reads and writes the future's own fields, so each runs here as one atomic step; what happens with
the mutex released is a step of its own: the user's callback (begun by `internal_set` or
`set_callback`, returning later), a wake-up in `uv_cond_wait` or `uv_cond_timedwait` (by a
broadcast, spuriously, or on timeout), and taking the mutex again after either. A run is any
sequence of such steps of any threads: every interleaving is one.

* Once the future is set it stays set and its outcome never changes (`outcome_run_of_isSet`):
  every completion that writes the outcome first checks `is_set_`.
* `Future::set` does not check `is_set_`, and `internal_set` runs the callback each time. Without
  it the callback begins at most once (`callbackRuns_run_le_one`); with it, a second `set` runs
  the callback a second time (`set_setCallback_set_set`).
* `internal_set` marks the future set before it releases the mutex to run the callback, so `wait`
  can return while the callback is still running (`wait_returns_duringCallback`), and `wait_for`
  waits once, so a spurious wake-up makes it return false before its time is up
  (`waitFor_returnsFalse_of_wake`).
-/

namespace CassandraDriver

namespace Future

variable {Err Resp Addr : Type}

/-- What the completions write: the error, and for a `ResponseFuture` the response and the
address. -/
structure Outcome (Err Resp Addr : Type) where
  error : Option Err := none
  response : Option Resp := none
  address : Option Addr := none

/-- A call on the future. The completions that check `is_set_` first differ only in what they
write; `Future::set` does not check and writes nothing. `wait` stands also for `error`,
`response` and `address`, which wait the same way before they read. -/
inductive Call (Err Resp Addr : Type)
  | set
  | complete (write : Outcome Err Resp Addr → Outcome Err Resp Addr)
  | setCallback
  | wait
  | waitFor
  | ready

/-- `Future::set_error`. -/
def setError (error : Err) : Call Err Resp Addr := .complete fun o => { o with error := some error }

/-- `ResponseFuture::set_response`. -/
def setResponse (address : Addr) (response : Resp) : Call Err Resp Addr :=
  .complete fun o => { o with address := some address, response := some response }

/-- `ResponseFuture::set_error_with_address`. -/
def setErrorWithAddress (address : Addr) (error : Err) : Call Err Resp Addr :=
  .complete fun o => { o with address := some address, error := some error }

/-- `ResponseFuture::set_error_with_response`. -/
def setErrorWithResponse (address : Addr) (response : Resp) (error : Err) : Call Err Resp Addr :=
  .complete fun o => { o with address := some address, response := some response, error := some error }

/-- Where the callback returns to: the rest of `internal_set`, or `set_callback`'s return. -/
inductive AfterCallback
  | internalSet
  | setCallback
  deriving DecidableEq, Repr

/-- Where a thread is: outside any call, in the callback, about to take the mutex again at the end
of `internal_set`, blocked in a wait (timed or not), woken and about to take the mutex again
(after a timeout or not), or returned from its call. -/
inductive Pc
  | idle
  | inCallback (after : AfterCallback)
  | relocking
  | waiting (timed : Bool)
  | woken (timed timedOut : Bool)
  | returned (result : Bool)
  deriving DecidableEq, Repr

/-- The future's fields, the threads, and two counters that are not the code's: the calls of the
callback begun and returned. `callback` is whether `callback_` is set. -/
structure State (Err Resp Addr : Type) where
  isSet : Bool := false
  outcome : Outcome Err Resp Addr := {}
  callback : Bool := false
  pcs : Nat → Pc := fun _ => .idle
  callbackRuns : Nat := 0
  callbackReturns : Nat := 0

/-- A step of a thread. -/
inductive Event (Err Resp Addr : Type)
  | call (thread : Nat) (call : Call Err Resp Addr)
  | lock (thread : Nat)
  | callbackReturns (thread : Nat)
  | wake (thread : Nat)
  | timeout (thread : Nat)

/-- A thread starting a call. -/
def Event.isCall : Event Err Resp Addr → Bool
  | .call _ _ => true
  | _ => false

namespace State

/-- A thread that may start a call. -/
def free (s : State Err Resp Addr) (t : Nat) : Bool :=
  match s.pcs t with
  | .idle | .returned _ => true
  | _ => false

/-- Thread `t` moves to `pc`. -/
def move (s : State Err Resp Addr) (t : Nat) (pc : Pc) : State Err Resp Addr :=
  { s with pcs := Function.update s.pcs t pc }

/-- `uv_cond_broadcast`: every waiting thread wakes up. -/
def broadcast (s : State Err Resp Addr) : State Err Resp Addr :=
  { s with pcs := fun t => match s.pcs t with
      | .waiting timed => .woken timed false
      | pc => pc }

/-- The callback begins on thread `t`, with the mutex released. -/
def runCallback (s : State Err Resp Addr) (t : Nat) (after : AfterCallback) :
    State Err Resp Addr :=
  { s.move t (.inCallback after) with callbackRuns := s.callbackRuns + 1 }

/-- `internal_set`, with the mutex held: set the future, then run the callback with the mutex
released, or broadcast and return. -/
def internalSet (s : State Err Resp Addr) (t : Nat) : State Err Resp Addr :=
  let s := { s with isSet := true }
  if s.callback then s.runCallback t .internalSet else (s.broadcast).move t (.returned true)

/-- The section of a call that runs before the mutex is first released. -/
def enter (s : State Err Resp Addr) (t : Nat) : Call Err Resp Addr → State Err Resp Addr
  | .set => s.internalSet t
  | .complete write =>
    if s.isSet then s.move t (.returned false)
    else { s with outcome := write s.outcome }.internalSet t
  | .setCallback =>
    if s.callback then s.move t (.returned false)
    else if s.isSet then { s with callback := true }.runCallback t .setCallback
    else { s with callback := true }.move t (.returned true)
  | .wait => if s.isSet then s.move t (.returned true) else s.move t (.waiting false)
  | .waitFor => if s.isSet then s.move t (.returned true) else s.move t (.waiting true)
  | .ready => s.move t (.returned s.isSet)

/-- Taking the mutex again after a wake-up: `internal_wait` loops until the future is set;
`internal_wait_for` returns false on a timeout, and otherwise whether the future is set. -/
def reacquire (s : State Err Resp Addr) (t : Nat) (timed timedOut : Bool) : State Err Resp Addr :=
  if timed then s.move t (.returned (!timedOut && s.isSet))
  else if s.isSet then s.move t (.returned true) else s.move t (.waiting false)

/-- One step, `none` where the thread cannot take it. -/
def step (s : State Err Resp Addr) : Event Err Resp Addr → Option (State Err Resp Addr)
  | .call t c => if s.free t then some (s.enter t c) else none
  | .lock t =>
    match s.pcs t with
    | .relocking => some (s.broadcast.move t (.returned true))
    | .woken timed timedOut => some (s.reacquire t timed timedOut)
    | _ => none
  | .callbackReturns t =>
    match s.pcs t with
    | .inCallback .internalSet =>
      some { s.move t .relocking with callbackReturns := s.callbackReturns + 1 }
    | .inCallback .setCallback =>
      some { s.move t (.returned true) with callbackReturns := s.callbackReturns + 1 }
    | _ => none
  | .wake t =>
    match s.pcs t with
    | .waiting timed => some (s.move t (.woken timed false))
    | _ => none
  | .timeout t =>
    match s.pcs t with
    | .waiting true => some (s.move t (.woken true true))
    | _ => none

/-- The steps in order, `none` if one cannot be taken. -/
def run (s : State Err Resp Addr) : List (Event Err Resp Addr) → Option (State Err Resp Addr)
  | [] => some s
  | e :: es => (s.step e).bind fun s => s.run es

end State

/-! ### What each step changes -/

namespace State

variable {s s' : State Err Resp Addr} {t : Nat}

@[simp] lemma isSet_move (pc : Pc) : (s.move t pc).isSet = s.isSet := rfl
@[simp] lemma outcome_move (pc : Pc) : (s.move t pc).outcome = s.outcome := rfl
@[simp] lemma callback_move (pc : Pc) : (s.move t pc).callback = s.callback := rfl
@[simp] lemma callbackRuns_move (pc : Pc) : (s.move t pc).callbackRuns = s.callbackRuns := rfl
@[simp] lemma isSet_broadcast : s.broadcast.isSet = s.isSet := rfl
@[simp] lemma outcome_broadcast : s.broadcast.outcome = s.outcome := rfl
@[simp] lemma callback_broadcast : s.broadcast.callback = s.callback := rfl
@[simp] lemma callbackRuns_broadcast : s.broadcast.callbackRuns = s.callbackRuns := rfl

@[simp] lemma isSet_reacquire (timed timedOut : Bool) :
    (s.reacquire t timed timedOut).isSet = s.isSet := by
  unfold reacquire
  split
  · rfl
  · split <;> rfl

@[simp] lemma outcome_reacquire (timed timedOut : Bool) :
    (s.reacquire t timed timedOut).outcome = s.outcome := by
  unfold reacquire
  split
  · rfl
  · split <;> rfl

@[simp] lemma callback_reacquire (timed timedOut : Bool) :
    (s.reacquire t timed timedOut).callback = s.callback := by
  unfold reacquire
  split
  · rfl
  · split <;> rfl

@[simp] lemma callbackRuns_reacquire (timed timedOut : Bool) :
    (s.reacquire t timed timedOut).callbackRuns = s.callbackRuns := by
  unfold reacquire
  split
  · rfl
  · split <;> rfl

/-- `internal_set` sets the future, keeps the outcome and the callback, and begins the callback
once if there is one. -/
lemma internalSet_fields :
    (s.internalSet t).isSet = true ∧ (s.internalSet t).outcome = s.outcome ∧
      (s.internalSet t).callback = s.callback ∧
      (s.internalSet t).callbackRuns = s.callbackRuns + if s.callback then 1 else 0 := by
  unfold internalSet
  dsimp only
  split <;> simp_all [runCallback]

/-- The fields a step may change, and only this way: the future becomes set and the callback
becomes registered, for good, and the callback begins only in a call. -/
lemma step_fields {e : Event Err Resp Addr} (h : s.step e = some s') :
    (s.isSet = true → s'.isSet = true) ∧ (s.callback = true → s'.callback = true) ∧
      (e.isCall = false → s'.callbackRuns = s.callbackRuns) := by
  cases e with
  | call t c =>
    simp only [step] at h
    split at h
    · cases h
      refine ⟨?_, ?_, fun h => absurd h (by simp [Event.isCall])⟩ <;> intro hs <;>
        cases c <;> simp only [enter] <;> (try split) <;> simp_all [internalSet_fields, runCallback]
    · cases h
  | lock t =>
    simp only [step] at h
    split at h <;> cases h <;> simp
  | callbackReturns t =>
    simp only [step] at h
    split at h <;> cases h <;> simp
  | wake t =>
    simp only [step] at h
    split at h
    · cases h
      simp
    · cases h
  | timeout t =>
    simp only [step] at h
    split at h
    · cases h
      simp
    · cases h

/-- A set future stays set, and its outcome stays as the first completion wrote it: a completion
that writes checks `is_set_` first, and `Future::set` writes nothing. -/
lemma outcome_step_of_isSet {e : Event Err Resp Addr} (hset : s.isSet = true)
    (h : s.step e = some s') : s'.isSet = true ∧ s'.outcome = s.outcome := by
  refine ⟨(step_fields h).1 hset, ?_⟩
  cases e
  case call t c =>
    simp only [step] at h
    split at h
    · cases h
      cases c <;> simp only [enter, hset, internalSet_fields] <;> (try split) <;>
        simp_all [runCallback]
    · cases h
  all_goals
    simp only [step] at h
    split at h <;> cases h <;> simp

theorem outcome_run_of_isSet :
    ∀ {s s' : State Err Resp Addr} (es : List (Event Err Resp Addr)), s.isSet = true →
      s.run es = some s' → s'.isSet = true ∧ s'.outcome = s.outcome
  | s, s', [], hset, h => by
    cases h
    exact ⟨hset, rfl⟩
  | s, s', e :: es, hset, h => by
    obtain ⟨s₁, h₁, h₂⟩ := Option.bind_eq_some_iff.1 h
    obtain ⟨hset₁, hout₁⟩ := outcome_step_of_isSet hset h₁
    obtain ⟨hset₂, hout₂⟩ := outcome_run_of_isSet es hset₁ h₂
    exact ⟨hset₂, hout₂.trans hout₁⟩

/-- The callback has begun at most once, and only once the future is set and the callback
registered. -/
def CallbackOnce (s : State Err Resp Addr) : Prop :=
  s.callbackRuns ≤ 1 ∧ (s.callbackRuns = 1 → s.isSet = true ∧ s.callback = true)

/-- Where the callback has not begun, a call other than `Future::set` begins it at most once, and
only with the future set and the callback registered. -/
lemma callbackOnce_enter {c : Call Err Resp Addr} (hc : c ≠ .set) (hinv : s.CallbackOnce) :
    (s.enter t c).CallbackOnce := by
  obtain ⟨hle, hone⟩ := hinv
  cases c with
  | set => exact absurd rfl hc
  | complete write =>
    simp only [enter]
    split
    · exact ⟨hle, hone⟩
    · -- the first completion: the callback cannot have begun on an unset future
      rename_i hunset
      have h0 : s.callbackRuns = 0 := by
        by_contra hne
        exact hunset (hone (by omega)).1
      obtain ⟨hs, -, hcb, hruns⟩ := @internalSet_fields _ _ _ { s with outcome := write s.outcome } t
      refine ⟨?_, fun _ => ⟨hs, ?_⟩⟩
      · rw [hruns]
        simp only [h0]
        split <;> omega
      · rw [hcb]
        by_contra hnot
        simp_all
  | setCallback =>
    simp only [enter]
    split
    · exact ⟨hle, hone⟩
    · rename_i hnone
      have h0 : s.callbackRuns = 0 := by
        by_contra hne
        exact hnone (hone (by omega)).2
      split
      · exact ⟨by simp [runCallback, h0], fun _ => by simp_all [runCallback]⟩
      · exact ⟨by simp [h0], by simp [h0]⟩
  | wait =>
    simp only [enter]
    split <;> exact ⟨hle, hone⟩
  | waitFor =>
    simp only [enter]
    split <;> exact ⟨hle, hone⟩
  | ready => exact ⟨hle, hone⟩

lemma callbackOnce_step {e : Event Err Resp Addr} (hinv : s.CallbackOnce)
    (hset : ∀ t, e ≠ .call t .set) (h : s.step e = some s') : s'.CallbackOnce := by
  cases e
  case call t c =>
    simp only [step] at h
    split at h
    · cases h
      exact callbackOnce_enter (fun hc => hset t (by rw [hc])) hinv
    · cases h
  all_goals
    obtain ⟨hmono₁, hmono₂, hruns⟩ := step_fields h
    rw [CallbackOnce, hruns rfl]
    exact ⟨hinv.1, fun h1 => ⟨hmono₁ (hinv.2 h1).1, hmono₂ (hinv.2 h1).2⟩⟩

/-- Without `Future::set`, the callback begins at most once, on any interleaving of any calls. -/
theorem callbackRuns_run_le_one :
    ∀ {s s' : State Err Resp Addr} (es : List (Event Err Resp Addr)), s.CallbackOnce →
      (∀ t, .call t .set ∉ es) → s.run es = some s' → s'.callbackRuns ≤ 1
  | s, s', [], hinv, _, h => by
    cases h
    exact hinv.1
  | s, s', e :: es, hinv, hset, h => by
    obtain ⟨s₁, h₁, h₂⟩ := Option.bind_eq_some_iff.1 h
    have hinv₁ := callbackOnce_step hinv (fun t he => hset t (he ▸ List.mem_cons_self)) h₁
    exact callbackRuns_run_le_one es hinv₁ (fun t ht => hset t (List.mem_cons_of_mem e ht)) h₂

lemma callbackOnce_initial : (({} : State Err Resp Addr)).CallbackOnce := ⟨by simp, by simp⟩

/-- `set_callback`, then `Future::set` twice on one thread: the second `set` runs the callback
again. -/
theorem set_setCallback_set_set :
    ((({} : State Unit Unit Unit)).run [.call 0 .setCallback, .call 0 .set, .callbackReturns 0,
      .lock 0, .call 0 .set]).map (fun s => s.callbackRuns) = some 2 := by
  decide

end State

/-! ### Waiting -/

/-- Where a thread stands once the callback began: in it, or taking the mutex again after it. -/
def Pc.afterCallback : Pc → Bool
  | .inCallback _ | .relocking => true
  | _ => false

namespace State

variable {s s' : State Err Resp Addr} {t : Nat}

/-- Every thread in the callback, or taking the mutex again after it, sees the future set. -/
def CallbackAfterSet (s : State Err Resp Addr) : Prop :=
  ∀ u, (s.pcs u).afterCallback = true → s.isSet = true

lemma callbackAfterSet_of_isSet (h : s.isSet = true) : s.CallbackAfterSet := fun _ _ => h

lemma CallbackAfterSet.move (hinv : s.CallbackAfterSet) {pc : Pc} (hpc : pc.afterCallback = false) :
    (s.move t pc).CallbackAfterSet := by
  intro u hu
  by_cases hut : u = t
  · subst hut
    simp only [State.move, Function.update_self, hpc] at hu
    cases hu
  · simp only [State.move, Function.update_of_ne hut] at hu
    exact hinv u hu

lemma CallbackAfterSet.broadcast (hinv : s.CallbackAfterSet) : s.broadcast.CallbackAfterSet := by
  intro u hu
  simp only [State.broadcast] at hu
  -- a broadcast only wakes the waiting threads
  split at hu
  · cases hu
  · exact hinv u hu

lemma CallbackAfterSet.enter (hinv : s.CallbackAfterSet) (c : Call Err Resp Addr) :
    (s.enter t c).CallbackAfterSet := by
  cases c with
  | set => exact callbackAfterSet_of_isSet internalSet_fields.1
  | complete write =>
    simp only [State.enter]
    split
    · exact hinv.move rfl
    · exact callbackAfterSet_of_isSet internalSet_fields.1
  | setCallback =>
    simp only [State.enter]
    split
    · exact hinv.move rfl
    · -- `set_callback` runs the callback only on a set future
      split
      · rename_i hset
        exact callbackAfterSet_of_isSet hset
      · exact (show CallbackAfterSet { s with callback := true } from hinv).move rfl
  | wait =>
    simp only [State.enter]
    split <;> exact hinv.move rfl
  | waitFor =>
    simp only [State.enter]
    split <;> exact hinv.move rfl
  | ready => exact hinv.move rfl

lemma CallbackAfterSet.step (hinv : s.CallbackAfterSet) {e : Event Err Resp Addr}
    (h : s.step e = some s') : s'.CallbackAfterSet := by
  cases e with
  | call t c =>
    simp only [State.step] at h
    split at h
    · cases h
      exact hinv.enter c
    · cases h
  | lock t =>
    simp only [State.step] at h
    split at h
    · cases h
      exact hinv.broadcast.move rfl
    · cases h
      unfold reacquire
      split
      · exact hinv.move rfl
      · split <;> exact hinv.move rfl
    · cases h
  | callbackReturns t =>
    simp only [State.step] at h
    split at h
    · -- back from the callback `internal_set` began, on a set future
      rename_i hpc
      cases h
      exact callbackAfterSet_of_isSet (hinv t (by rw [hpc]; rfl))
    · cases h
      exact hinv.move rfl
    · cases h
  | wake t =>
    simp only [State.step] at h
    split at h
    · cases h
      exact hinv.move rfl
    · cases h
  | timeout t =>
    simp only [State.step] at h
    split at h
    · cases h
      exact hinv.move rfl
    · cases h

lemma CallbackAfterSet.run :
    ∀ {s s' : State Err Resp Addr} (es : List (Event Err Resp Addr)), s.CallbackAfterSet →
      s.run es = some s' → s'.CallbackAfterSet
  | s, s', [], hinv, h => by
    cases h
    exact hinv
  | s, s', e :: es, hinv, h => by
    obtain ⟨s₁, h₁, h₂⟩ := Option.bind_eq_some_iff.1 h
    exact CallbackAfterSet.run es (hinv.step h₁) h₂

/-- `internal_set` sets `is_set_` before it releases the mutex to run the callback: in every run
from a new future, while a thread is in the callback, `wait` on any other thread returns true at
once, before the callback has returned. -/
theorem wait_returns_duringCallback {es : List (Event Err Resp Addr)}
    (h : ({} : State Err Resp Addr).run es = some s) {u : Nat} {after : AfterCallback}
    (hu : s.pcs u = .inCallback after) (ht : s.free t = true) :
    s.step (.call t .wait) = some (s.move t (.returned true)) := by
  have hset : s.isSet = true :=
    CallbackAfterSet.run es (fun _ hu => by cases hu) h u (by rw [hu]; rfl)
  simp only [State.step, ht, if_true, State.enter, hset]

example :
    ((({} : State Unit Unit Unit)).run [.call 0 .setCallback, .call 0 (setResponse () ()),
      .call 1 .wait]).map (fun s => (s.pcs 1, s.callbackRuns, s.callbackReturns)) =
      some (.returned true, 1, 0) := by
  decide

/-- `wait_for` waits on the condition once: a wake-up of a thread in `wait_for` while the future
is not set, which no broadcast makes, and its relock return false, before any timeout. -/
theorem waitFor_returnsFalse_of_wake (ht : s.pcs t = .waiting true) (hset : s.isSet = false) :
    ((s.step (.wake t)).bind fun s => s.step (.lock t)) =
      some ((s.move t (.woken true false)).move t (.returned false)) := by
  simp [State.step, ht, move, reacquire, hset]

example :
    ((({} : State Unit Unit Unit)).run [.call 1 .waitFor, .wake 1, .lock 1]).map
      (fun s => (s.pcs 1, s.isSet)) = some (.returned false, false) := by
  decide

end State

end Future

end CassandraDriver
