import Mathlib

/-!
# The periodic partition refresh of a session

With partition-aware routing, the session thread runs `Session::on_refresh_metadata` every few
seconds: under `refresh_metadata_future_mutex_` it makes a `ResponseFuture`, registers
`refresh_metadata_callback` on it and sends the refresh query, unless one is outstanding. The
thread that sets the future runs the callback: an I/O thread finishing the query, the session
thread failing it in `Session::execute`, or the session thread in `notify_connected` and
`notify_closed`, which call `Future::set` holding `state_mutex_` and
`refresh_metadata_future_mutex_`. The callback takes `refresh_metadata_future_mutex_`, then
`state_mutex_`, the other order.

Both mutexes are non-recursive `uv_mutex_t`s. A thread is modelled by where it stands: before a
`ScopedMutex` it waits for, or idle; a step takes the mutex and runs to the next one, or to the
end. Sections that take no mutex of these two (the future's own mutex, sending the query,
`update_partitions`) run inside the step they belong to. `close_async`, on an application
thread, holds `state_mutex_` for one step.

What keeps the two orders apart is the session's life cycle (`Allowed`): `notify_connected`
comes before the periodic task it starts has made a future, and `notify_closed` comes from
`on_after_run`, once every I/O thread has been joined, when every refresh query has completed.
In every state reached so (`refresh_safe`):

* the holder of either mutex releases it in its next step, which it can take now, so no set of
  threads waits for mutexes held among themselves;
* each future's callback has begun once when its query completed, and not before;
* `refresh_metadata_future_` points at the one outstanding refresh, and is null when none is.
-/

namespace CassandraDriver

namespace SessionRefresh

/-- `Session::State`, as far as the refresh reads it. -/
inductive SessionState
  | connecting
  | connected
  | closing
  | closed
  deriving DecidableEq, Repr

/-- `state_mutex_` and `refresh_metadata_future_mutex_`. -/
inductive Mutex
  | state
  | refreshFuture
  deriving DecidableEq, Repr

/-- Who called `Future::set` on a refresh future, on whose thread its callback runs. -/
inductive Caller
  | notifyConnected
  | notifyClosed
  | completion
  deriving DecidableEq, Repr

/-- Where a thread stands: idle, or before the `ScopedMutex` of a procedure. -/
inductive Pc
  | idle
  | refreshLockState
  | refreshLockFuture
  | connectedLockState
  | connectedLockFuture
  | closedLockState
  | closedLockFuture
  | callbackLockFuture (caller : Caller) (future : Nat)
  | callbackLockState (caller : Caller) (future : Nat)
  deriving DecidableEq, Repr

/-- The mutex a thread waits for. -/
def Pc.wants : Pc → Option Mutex
  | .idle => none
  | .refreshLockState | .connectedLockState | .closedLockState | .callbackLockState _ _ =>
    some .state
  | .refreshLockFuture | .connectedLockFuture | .closedLockFuture | .callbackLockFuture _ _ =>
    some .refreshFuture

/-- A future `on_refresh_metadata` made: whether it is set, and the calls of its callback begun
(a counter that is not the code's). -/
structure RefreshFuture where
  isSet : Bool := false
  callbackRuns : Nat := 0
  deriving DecidableEq, Repr

/-- The session's fields the refresh reads and writes, the threads, and the futures made so far,
with those whose query has not completed. `refreshFuture` is `refresh_metadata_future_`, as an
index into `futures`. The session thread is thread `0`. -/
structure State where
  session : SessionState := .connecting
  holder : Mutex → Option Nat := fun _ => none
  refreshFuture : Option Nat := none
  futures : List RefreshFuture := []
  inFlight : List Nat := []
  pcs : Nat → Pc := fun _ => .idle

/-- What the session thread runs: the periodic task and the two notifications. -/
inductive Procedure
  | onRefreshMetadata
  | notifyConnected
  | notifyClosed
  deriving DecidableEq, Repr

/-- Where a procedure takes its first mutex. -/
def Procedure.entry : Procedure → Pc
  | .onRefreshMetadata => .refreshLockState
  | .notifyConnected => .connectedLockState
  | .notifyClosed => .closedLockState

/-- The session thread begins a procedure; a thread takes its next step; a thread finishes the
refresh query of a future and sets it (an I/O thread with the response, or the session thread
with the error of `Session::execute`); the application closes the session. -/
inductive Event
  | start (procedure : Procedure)
  | step (thread : Nat)
  | complete (thread future : Nat)
  | closeAsync

namespace State

/-- Thread `t` moves to `pc`. -/
def move (s : State) (t : Nat) (pc : Pc) : State := { s with pcs := Function.update s.pcs t pc }

/-- Thread `t` takes `m`. -/
def acquire (s : State) (m : Mutex) (t : Nat) : State :=
  { s with holder := Function.update s.holder m (some t) }

/-- Thread `t` releases `m`, if it holds it. -/
def release (s : State) (m : Mutex) (t : Nat) : State :=
  if s.holder m = some t then { s with holder := Function.update s.holder m none } else s

/-- `Future::set` on future `f` from thread `t`, which does not check `is_set_`: the future is set
and its callback begins on `t`. -/
def setFuture (s : State) (t : Nat) (caller : Caller) (f : Nat) : State :=
  { s with futures := s.futures.modify f fun x => { isSet := true, callbackRuns := x.callbackRuns + 1 } }
    |>.move t (.callbackLockFuture caller f)

/-- What follows the callback's return: `notify_connected` and `notify_closed` reset the pointer
and release both mutexes; an I/O thread's `internal_set` broadcasts and returns. -/
def afterSet (s : State) (t : Nat) : Caller → State
  | .notifyConnected | .notifyClosed =>
    (({ s with refreshFuture := none }.release .refreshFuture t).release .state t).move t .idle
  | .completion => s.move t .idle

/-- What thread `t` runs once it holds the mutex it waited for at `pc`, up to the next mutex it
waits for or the end. -/
def locked (s : State) (t : Nat) : Pc → State
  | .idle => s
  | .refreshLockState =>
    -- `on_refresh_metadata` returns unless the session is connected
    if s.session = .connected then (s.release .state t).move t .refreshLockFuture
    else (s.release .state t).move t .idle
  | .refreshLockFuture =>
    match s.refreshFuture with
    | none =>
      -- a new future with the callback registered, and its query sent
      ({ s with
        refreshFuture := some s.futures.length
        futures := s.futures ++ [({} : RefreshFuture)]
        inFlight := s.inFlight ++ [s.futures.length] }.release .refreshFuture t).move t .idle
    | some _ => (s.release .refreshFuture t).move t .idle
  | .connectedLockState =>
    -- the connect future is set too, and has no callback of the refresh
    { s with session := if s.session = SessionState.connecting then .connected else s.session }.move
      t .connectedLockFuture
  | .connectedLockFuture =>
    match s.refreshFuture with
    | some f => s.setFuture t .notifyConnected f
    | none => ((s.release .refreshFuture t).release .state t).move t .idle
  | .closedLockState => { s with session := .closed }.move t .closedLockFuture
  | .closedLockFuture =>
    match s.refreshFuture with
    | some f => s.setFuture t .notifyClosed f
    | none => ((s.release .refreshFuture t).release .state t).move t .idle
  | .callbackLockFuture caller f =>
    { s with refreshFuture := none }.move t (.callbackLockState caller f)
  | .callbackLockState caller _ =>
    -- connected or not, the callback releases `state_mutex_`, then its
    -- `refresh_metadata_future_mutex_`, and returns to its caller
    ((s.release .state t).release .refreshFuture t).afterSet t caller

/-- One step, `none` where it cannot be taken: a thread waiting for a held mutex does not move. -/
def step (s : State) : Event → Option State
  | .start p => if s.pcs 0 = .idle then some (s.move 0 p.entry) else none
  | .step t =>
    match (s.pcs t).wants with
    | some m => if s.holder m = none then some ((s.acquire m t).locked t (s.pcs t)) else none
    | none => none
  | .complete t f =>
    if s.pcs t = .idle ∧ f ∈ s.inFlight then
      -- `set_response` checks `is_set_` first
      if (s.futures.getD f ({} : RefreshFuture)).isSet then some { s with inFlight := s.inFlight.erase f }
      else some ({ s with inFlight := s.inFlight.erase f }.setFuture t .completion f)
    else none
  | .closeAsync =>
    -- under `state_mutex_`; a session already closing or closed only fails the close future
    if s.holder .state = none then
      some (if s.session = .connecting ∨ s.session = .connected then { s with session := .closing }
        else s)
    else none

end State


/-! ### The session's life cycle -/

/-- When the session's notifications come. `notify_connected` comes before the periodic task it
starts has made a refresh future. `notify_closed` comes once the session is closing, from
`on_after_run` after every I/O thread has been joined: no callback runs on an I/O thread, and
every refresh query sent has completed, since an I/O worker closes only once its pending requests
have finished, and a request that reaches no worker fails on the session thread. -/
def Allowed (s : State) : Event → Prop
  | .start .notifyConnected => s.futures = []
  | .start .notifyClosed => s.session = .closing ∧ s.inFlight = [] ∧ ∀ t, t ≠ 0 → s.pcs t = .idle
  | _ => True

/-- The states a session reaches from a new one. -/
inductive Reachable : State → Prop
  | init : Reachable {}
  | step {s s' : State} {e : Event} : Reachable s → Allowed s e → s.step e = some s' →
      Reachable s'

/-! ### Where the threads stand, and what they hold -/

/-- Whether a thread standing at `pc` holds `m`: the notifications hold `state_mutex_` while they
wait for the other mutex, and the callback holds `refresh_metadata_future_mutex_` while it waits
for `state_mutex_`. -/
def Pc.holds : Pc → Mutex → Bool
  | .connectedLockFuture, .state | .closedLockFuture, .state => true
  | .callbackLockState _ _, .refreshFuture => true
  | _, _ => false

/-- Whether the session thread is inside `notify_connected` or `notify_closed`. -/
def Pc.notifying : Pc → Bool
  | .connectedLockState | .connectedLockFuture | .closedLockState | .closedLockFuture => true
  | _ => false

/-- The callback a thread runs, with its caller and future. -/
def Pc.callback : Pc → Option (Caller × Nat)
  | .callbackLockFuture c f | .callbackLockState c f => some (c, f)
  | _ => none

/-- Places where a thread holds no mutex and runs no callback. -/
def Pc.plain : Pc → Bool
  | .idle | .refreshLockState | .refreshLockFuture | .connectedLockState | .closedLockState => true
  | _ => false

lemma Pc.holds_of_plain {pc : Pc} (h : pc.plain = true) (m : Mutex) : pc.holds m = false := by
  cases pc <;> cases m <;> first | rfl | cases h

lemma Pc.callback_of_plain {pc : Pc} (h : pc.plain = true) : pc.callback = none := by
  cases pc <;> first | rfl | cases h

namespace State

@[simp] lemma move_pcs {s : State} {t : Nat} {pc : Pc} :
    (s.move t pc).pcs = Function.update s.pcs t pc := rfl

/-- A refresh is outstanding from the sending of its query until its callback resets
`refresh_metadata_future_`. -/
def Outstanding (s : State) (f : Nat) : Prop :=
  f ∈ s.inFlight ∨ ∃ t, s.pcs t = .callbackLockFuture .completion f

variable {s : State} {t : Nat} {m : Mutex}

lemma release_acquire (hfree : s.holder m = none) : (s.acquire m t).release m t = s := by
  have hupd : Function.update (Function.update s.holder m (some t)) m none = s.holder := by
    rw [Function.update_idem, ← hfree, Function.update_eq_self]
  simp only [release, acquire, Function.update_self, if_true, hupd]

lemma release_of_holder (h : s.holder m = some t) :
    s.release m t = { s with holder := Function.update s.holder m none } :=
  if_pos h

/-- What holds in every state the session reaches. -/
structure Inv (s : State) : Prop where
  /-- A mutex is held by the thread standing past its `ScopedMutex`. -/
  holder_iff : ∀ m t, s.holder m = some t ↔ (s.pcs t).holds m = true
  /-- An I/O thread runs nothing but callbacks. -/
  ioThread : ∀ t, t ≠ 0 → s.pcs t = .idle ∨ (s.pcs t).callback.isSome
  /-- A callback runs for a completed query of a future made. -/
  callback : ∀ t c f, (s.pcs t).callback = some (c, f) → c = .completion ∧ f < s.futures.length
  /-- In a notification no refresh is outstanding and the I/O threads are idle. -/
  notifying : (s.pcs 0).notifying = true →
    s.refreshFuture = none ∧ s.inFlight = [] ∧ ∀ t, t ≠ 0 → s.pcs t = .idle
  refreshing : s.pcs 0 = .refreshLockFuture → s.session = .connected ∨ s.session = .closing
  closed : s.session = .closed → s.inFlight = []
  inFlight_refresh : ∀ f ∈ s.inFlight, s.refreshFuture = some f
  inFlight_nodup : s.inFlight.Nodup
  inFlight_lt : ∀ f ∈ s.inFlight, f < s.futures.length
  /-- A completed refresh still owns `refresh_metadata_future_` until its callback resets it. -/
  lockFuture : ∀ t c f, s.pcs t = .callbackLockFuture c f →
    s.refreshFuture = some f ∧ s.inFlight = []
  lockFuture_unique : ∀ t t' c c' f f', s.pcs t = .callbackLockFuture c f →
    s.pcs t' = .callbackLockFuture c' f' → t = t'
  lockState : ∀ t c f, s.pcs t = .callbackLockState c f → s.refreshFuture = none
  outstanding : ∀ f, s.refreshFuture = some f → s.Outstanding f
  futures : ∀ f < s.futures.length,
    s.futures.getD f {} = ⟨decide (f ∉ s.inFlight), if f ∈ s.inFlight then 0 else 1⟩

lemma getD_modify {α : Type*} (l : List α) (d : α) (g : α → α) {i j : Nat} (hj : j < l.length) :
    (l.modify i g).getD j d = if i = j then g (l.getD j d) else l.getD j d := by
  simp only [List.getD_eq_getElem?_getD, List.getElem?_modify, List.getElem?_eq_getElem hj,
    Option.map_eq_map, Option.map_some, Option.getD_some]

/-! ### What each step does -/

@[simp] lemma acquire_session : (s.acquire m t).session = s.session := rfl

@[simp] lemma acquire_refreshFuture : (s.acquire m t).refreshFuture = s.refreshFuture := rfl

lemma locked_refreshLockState (hfree : s.holder .state = none) :
    (s.acquire .state t).locked t .refreshLockState =
      if s.session = .connected then s.move t .refreshLockFuture else s.move t .idle := by
  simp only [locked, acquire_session, release_acquire hfree]

/-- With no refresh outstanding, `on_refresh_metadata` makes a future and sends its query. -/
lemma locked_refreshLockFuture_none (hfree : s.holder .refreshFuture = none)
    (hnone : s.refreshFuture = none) :
    (s.acquire .refreshFuture t).locked t .refreshLockFuture =
      { s with
        refreshFuture := some s.futures.length
        futures := s.futures ++ [({} : RefreshFuture)]
        inFlight := s.inFlight ++ [s.futures.length] }.move t .idle := by
  have h := release_acquire (t := t) (s := { s with
    refreshFuture := some s.futures.length
    futures := s.futures ++ [({} : RefreshFuture)]
    inFlight := s.inFlight ++ [s.futures.length] }) hfree
  simp only [locked, acquire_refreshFuture, hnone]
  exact congrArg (fun s' => s'.move t .idle) h

lemma locked_refreshLockFuture_some (hfree : s.holder .refreshFuture = none) {f : Nat}
    (hsome : s.refreshFuture = some f) :
    (s.acquire .refreshFuture t).locked t .refreshLockFuture = s.move t .idle := by
  simp only [locked, acquire_refreshFuture, hsome, release_acquire hfree]

/-- With no refresh outstanding, a notification releases both mutexes and returns. -/
lemma locked_notify_none {pc : Pc} (hpc : pc = .connectedLockFuture ∨ pc = .closedLockFuture)
    (hfree : s.holder .refreshFuture = none) (hheld : s.holder .state = some t)
    (hnone : s.refreshFuture = none) :
    (s.acquire .refreshFuture t).locked t pc =
      { s with holder := Function.update s.holder .state none }.move t .idle := by
  rcases hpc with rfl | rfl <;>
    simp only [locked, acquire_refreshFuture, hnone, release_acquire hfree, release_of_holder hheld]

/-- The callback of a completed query releases both mutexes and returns to `internal_set`. -/
lemma locked_callbackLockState (hfree : s.holder .state = none)
    (hheld : s.holder .refreshFuture = some t) {f : Nat} :
    (s.acquire .state t).locked t (.callbackLockState .completion f) =
      { s with holder := Function.update s.holder .refreshFuture none }.move t .idle := by
  simp only [locked, release_acquire hfree, release_of_holder hheld, afterSet]

/-- A thread's step takes the mutex it waits for, which is free. -/
lemma step_step {s' : State} (h : s.step (.step t) = some s') :
    ∃ m, (s.pcs t).wants = some m ∧ s.holder m = none ∧ s' = (s.acquire m t).locked t (s.pcs t) := by
  simp only [step] at h
  split at h
  · rename_i m hm
    split at h
    · rename_i hfree
      cases h
      exact ⟨m, hm, hfree, rfl⟩
    · cases h
  · cases h

lemma inv_init : Inv {} where
  holder_iff m t := by cases m <;> simp [Pc.holds]
  ioThread _ _ := .inl rfl
  callback _ _ _ h := nomatch h
  notifying h := nomatch h
  refreshing h := nomatch h
  closed h := nomatch h
  inFlight_refresh _ h := nomatch h
  inFlight_nodup := .nil
  inFlight_lt _ h := nomatch h
  lockFuture _ _ _ h := nomatch h
  lockFuture_unique _ _ _ _ _ _ h := nomatch h
  lockState _ _ _ h := nomatch h
  outstanding _ h := nomatch h
  futures _ h := absurd h (Nat.not_lt_zero _)

/-- Only the session thread stands in the session thread's procedures. -/
lemma Inv.eq_zero (hi : Inv s) (hidle : s.pcs t ≠ .idle) (hcb : (s.pcs t).callback = none) :
    t = 0 := by
  by_contra ht
  rcases hi.ioThread t ht with h | h
  · exact hidle h
  · rw [hcb] at h
    cases h

/-- What is in flight is the future `refresh_metadata_future_` points at. -/
lemma Inv.inFlight_eq (hi : Inv s) {f : Nat} (hf : f ∈ s.inFlight) : s.inFlight = [f] := by
  have hall : ∀ g ∈ s.inFlight, g = f := fun g hg =>
    Option.some.inj ((hi.inFlight_refresh g hg).symm.trans (hi.inFlight_refresh f hf))
  obtain ⟨hlen, -⟩ := List.eq_replicate_iff.1 (List.eq_replicate_iff.2 ⟨rfl, hall⟩)
  have hle : s.inFlight.length ≤ 1 := by
    rw [← List.nodup_replicate (a := f), ← List.eq_replicate_iff.2 ⟨rfl, hall⟩]
    exact hi.inFlight_nodup
  have hpos : 0 < s.inFlight.length := List.length_pos_of_mem hf
  rw [List.eq_replicate_iff.2 ⟨rfl, hall⟩, show s.inFlight.length = 1 by omega]
  rfl

/-- The session thread moves between places where it holds nothing and runs no callback. -/
lemma Inv.movePlain (hi : Inv s) {pc : Pc} (hfrom : (s.pcs 0).plain = true)
    (hto : pc.plain = true)
    (hnotify : pc.notifying = true →
      s.refreshFuture = none ∧ s.inFlight = [] ∧ ∀ t, t ≠ 0 → s.pcs t = .idle)
    (hrefresh : pc = .refreshLockFuture → s.session = .connected ∨ s.session = .closing) :
    Inv (s.move 0 pc) := by
  have hold := Pc.holds_of_plain hfrom
  have hold' := Pc.holds_of_plain hto
  have hcb := Pc.callback_of_plain hfrom
  have hcb' := Pc.callback_of_plain hto
  -- a thread in a callback is another one than the session thread, before and after
  have hlf : ∀ t c f, pc = .callbackLockFuture c f → t = 0 → False := by
    rintro t c f rfl -
    cases hcb'
  have hls : ∀ t c f, pc = .callbackLockState c f → t = 0 → False := by
    rintro t c f rfl -
    cases hcb'
  refine ⟨fun m t => ?_, fun t ht => ?_, fun t c f h => ?_, fun h => ?_, fun h => ?_, hi.closed,
    hi.inFlight_refresh, hi.inFlight_nodup, hi.inFlight_lt, fun t c f h => ?_,
    fun t t' c c' f f' h h' => ?_, fun t c f h => ?_, fun f h => ?_, hi.futures⟩
  · rcases eq_or_ne t 0 with rfl | ht
    · simp only [move, Function.update_self, hold', hi.holder_iff, hold]
    · simp only [move, Function.update_of_ne ht, hi.holder_iff]
  · simp only [move, Function.update_of_ne ht]
    exact hi.ioThread t ht
  · rcases eq_or_ne t 0 with rfl | ht
    · simp [move, hcb'] at h
    · simp only [move, Function.update_of_ne ht] at h
      exact hi.callback t c f h
  · simp only [move, Function.update_self] at h
    obtain ⟨hnone, hempty, hidle⟩ := hnotify h
    exact ⟨hnone, hempty, fun t ht => (Function.update_of_ne ht _ _).trans (hidle t ht)⟩
  · simp only [move, Function.update_self] at h
    exact hrefresh h
  · rcases eq_or_ne t 0 with rfl | ht
    · exact (hlf 0 c f (by simpa [move] using h) rfl).elim
    · simp only [move, Function.update_of_ne ht] at h
      exact hi.lockFuture t c f h
  · rcases eq_or_ne t 0 with rfl | ht
    · exact (hlf 0 c f (by simpa [move] using h) rfl).elim
    rcases eq_or_ne t' 0 with rfl | ht'
    · exact (hlf 0 c' f' (by simpa [move] using h') rfl).elim
    simp only [move, Function.update_of_ne ht, Function.update_of_ne ht'] at h h'
    exact hi.lockFuture_unique t t' c c' f f' h h'
  · rcases eq_or_ne t 0 with rfl | ht
    · exact (hls 0 c f (by simpa [move] using h) rfl).elim
    · simp only [move, Function.update_of_ne ht] at h
      exact hi.lockState t c f h
  · -- the thread whose callback owns the pointer is not the session thread
    rcases hi.outstanding f h with hf | ⟨t, ht⟩
    · exact .inl hf
    · have ht0 : t ≠ 0 := by
        rintro rfl
        rw [ht] at hcb
        cases hcb
      exact .inr ⟨t, (Function.update_of_ne ht0 _ _).trans ht⟩

/-- The session thread takes `state_mutex_` in a notification, the I/O threads idle. -/
lemma Inv.enterNotify (hi : Inv s) (hpc₀ : (s.pcs 0).notifying = true)
    (hold : ∀ m, (s.pcs 0).holds m = false) {σ : SessionState}
    (hσ : σ = .closed → s.inFlight = []) {pc : Pc}
    (hpc : pc = .connectedLockFuture ∨ pc = .closedLockFuture) :
    Inv ({ s with session := σ, holder := Function.update s.holder .state (some 0) }.move 0 pc) := by
  obtain ⟨hnone, hempty, hidle⟩ := hi.notifying hpc₀
  -- no thread runs a callback: the session thread stands in the notification, the others idle
  have hnocb : ∀ t, (Function.update s.pcs 0 pc t).callback = none := by
    intro t
    rcases eq_or_ne t 0 with rfl | ht
    · rcases hpc with rfl | rfl <;> rfl
    · rw [Function.update_of_ne ht, hidle t ht]
      rfl
  refine ⟨fun m t => ?_, fun t ht => ?_, fun t c f h => ?_, fun _ => ?_, fun h => ?_, hσ,
    hi.inFlight_refresh, hi.inFlight_nodup, hi.inFlight_lt, fun t c f h => ?_,
    fun t _ c _ f _ h _ => ?_, fun t c f h => ?_, fun f h => ?_, hi.futures⟩
  · rcases eq_or_ne t 0 with rfl | ht
    · cases m
      · simp only [move, Function.update_self, true_iff]
        rcases hpc with rfl | rfl <;> rfl
      · simp only [move, Function.update_self, ne_eq, reduceCtorEq, not_false_eq_true,
          Function.update_of_ne, hi.holder_iff, hold]
        rcases hpc with rfl | rfl <;> simp [Pc.holds]
    · cases m
      · simp only [move, Function.update_self, Function.update_of_ne ht, hidle t ht]
        simp [Pc.holds, Ne.symm ht]
      · simp only [move, ne_eq, reduceCtorEq, not_false_eq_true, Function.update_of_ne,
          Function.update_of_ne ht, hi.holder_iff]
  · simp only [move, Function.update_of_ne ht]
    exact hi.ioThread t ht
  · simp only [move, hnocb] at h
    cases h
  · exact ⟨hnone, hempty, fun t ht => (Function.update_of_ne ht _ _).trans (hidle t ht)⟩
  · simp only [move, Function.update_self] at h
    rcases hpc with rfl | rfl <;> cases h
  · have := hnocb t
    simp only [move] at h
    rw [h] at this
    cases this
  · have := hnocb t
    simp only [move] at h
    rw [h] at this
    cases this
  · have := hnocb t
    simp only [move] at h
    rw [h] at this
    cases this
  · rw [hnone] at h
    cases h

/-- With no refresh outstanding, the notification releases `state_mutex_` and returns. -/
lemma Inv.leaveNotify (hi : Inv s) (hpc : s.pcs 0 = .connectedLockFuture ∨ s.pcs 0 = .closedLockFuture) :
    Inv ({ s with holder := Function.update s.holder .state none }.move 0 .idle) := by
  have hnotifying : (s.pcs 0).notifying = true := by rcases hpc with h | h <;> rw [h] <;> rfl
  obtain ⟨hnone, hempty, hidle⟩ := hi.notifying hnotifying
  -- afterwards every thread is idle
  have hall : ∀ t, (Function.update s.pcs 0 .idle) t = .idle := by
    intro t
    rcases eq_or_ne t 0 with rfl | ht
    · exact Function.update_self _ _ _
    · exact (Function.update_of_ne ht _ _).trans (hidle t ht)
  refine ⟨fun m t => ?_, fun t _ => .inl (hall t), fun t c f h => ?_, fun h => ?_, fun h => ?_,
    hi.closed, hi.inFlight_refresh, hi.inFlight_nodup, hi.inFlight_lt, fun t c f h => ?_,
    fun t _ c _ f _ h _ => ?_, fun t c f h => ?_, fun f h => ?_, hi.futures⟩
  · simp only [move, hall]
    cases m
    · simp [Pc.holds]
    · simp only [ne_eq, reduceCtorEq, not_false_eq_true, Function.update_of_ne]
      rw [hi.holder_iff]
      rcases eq_or_ne t 0 with rfl | ht
      · rcases hpc with h | h <;> rw [h] <;> rfl
      · rw [hidle t ht]
  · simp only [move, hall] at h
    cases h
  · simp only [move, hall] at h
    cases h
  · simp only [move, hall] at h
    cases h
  · simp only [move, hall] at h
    cases h
  · simp only [move, hall] at h
    cases h
  · simp only [move, hall] at h
    cases h
  · rw [hnone] at h
    cases h

/-- `on_refresh_metadata` makes a future and sends its query, with none outstanding. -/
lemma Inv.send (hi : Inv s) (hpc : s.pcs 0 = .refreshLockFuture)
    (hfree : s.holder .refreshFuture = none) (hnone : s.refreshFuture = none) :
    Inv ({ s with
      refreshFuture := some s.futures.length
      futures := s.futures ++ [({} : RefreshFuture)]
      inFlight := s.inFlight ++ [s.futures.length] }.move 0 .idle) := by
  have hempty : s.inFlight = [] := List.eq_nil_iff_forall_not_mem.2 fun f hf => by
    rw [hi.inFlight_refresh f hf] at hnone
    cases hnone
  have hother : ∀ t, t ≠ 0 → Function.update s.pcs 0 .idle t = s.pcs t :=
    fun t ht => Function.update_of_ne ht _ _
  -- no callback runs: one past the reset would hold the free mutex, one before it would see
  -- the null pointer
  have hnols : ∀ t c f, s.pcs t ≠ .callbackLockState c f := fun t c f h => by
    have := (hi.holder_iff .refreshFuture t).2 (by rw [h]; rfl)
    rw [hfree] at this
    cases this
  have hnolf : ∀ t c f, s.pcs t ≠ .callbackLockFuture c f := fun t c f h => by
    rw [(hi.lockFuture t c f h).1] at hnone
    cases hnone
  have hsession := hi.refreshing hpc
  refine ⟨fun m t => ?_, fun t ht => ?_, fun t c f h => ?_, fun h => ?_, fun h => ?_,
    fun h => ?_, fun f hf => ?_, ?_, fun f hf => ?_, fun t c f h => ?_,
    fun t _ c _ f _ h _ => ?_, fun t c f h => ?_, fun f h => ?_, fun f hf => ?_⟩
  · rcases eq_or_ne t 0 with rfl | ht
    · simp only [move, Function.update_self, hi.holder_iff, hpc]
      cases m <;> rfl
    · simp only [move, hother t ht, hi.holder_iff]
  · simp only [move, hother t ht]
    exact hi.ioThread t ht
  · rcases eq_or_ne t 0 with rfl | ht
    · simp [move, Pc.callback] at h
    · simp only [move, hother t ht] at h
      simp only [move, List.length_append, List.length_singleton]
      exact ⟨(hi.callback t c f h).1, Nat.lt_succ_of_lt (hi.callback t c f h).2⟩
  · simp [move, Pc.notifying] at h
  · simp [move] at h
  · rcases hsession with h' | h' <;> simp only [move, h'] at h <;> cases h
  · simp only [move, hempty, List.nil_append, List.mem_singleton] at hf
    rw [hf]
    rfl
  · simp only [move, hempty, List.nil_append]
    exact List.nodup_singleton _
  · simp only [move, hempty, List.nil_append, List.mem_singleton] at hf
    simp [move, hf]
  · rcases eq_or_ne t 0 with rfl | ht
    · simp [move] at h
    · simp only [move, hother t ht] at h
      exact (hnolf t c f h).elim
  · rcases eq_or_ne t 0 with rfl | ht
    · simp [move] at h
    · simp only [move, hother t ht] at h
      exact (hnolf t _ _ h).elim
  · rcases eq_or_ne t 0 with rfl | ht
    · simp [move] at h
    · simp only [move, hother t ht] at h
      exact (hnols t c f h).elim
  · simp only [move, Option.some.injEq] at h
    exact .inl (by simp [move, h])
  · simp only [move, List.length_append, List.length_singleton] at hf
    simp only [move, hempty, List.nil_append, List.mem_singleton]
    rcases Nat.lt_succ_iff_lt_or_eq.1 hf with hlt | rfl
    · rw [List.getD_append _ _ _ _ hlt, hi.futures f hlt, hempty]
      simp [hlt.ne]
    · rw [List.getD_append_right _ _ _ _ le_rfl]
      simp

/-- A callback resets `refresh_metadata_future_` under `refresh_metadata_future_mutex_`. -/
lemma Inv.resetFuture (hi : Inv s) {c : Caller} {f : Nat} (hpc : s.pcs t = .callbackLockFuture c f)
    (hfree : s.holder .refreshFuture = none) :
    Inv ({ s with refreshFuture := none, holder := Function.update s.holder .refreshFuture (some t) }.move
      t (.callbackLockState c f)) := by
  obtain ⟨hsome, hempty⟩ := hi.lockFuture t c f hpc
  -- the session thread is in no notification, which would keep the other threads idle
  have hnotify : (s.pcs 0).notifying = false := by
    rcases eq_or_ne t 0 with rfl | ht
    · rw [hpc]
      rfl
    · cases h : (s.pcs 0).notifying
      · rfl
      · rw [(hi.notifying h).2.2 t ht] at hpc
        cases hpc
  refine ⟨fun m t' => ?_, fun t' ht' => ?_, fun t' c' f' h => ?_, fun h => ?_, fun h => ?_,
    hi.closed, fun g hg => ?_, hi.inFlight_nodup, hi.inFlight_lt, fun t' c' f' h => ?_,
    fun t' t'' c' c'' f' f'' h h' => ?_, fun _ _ _ _ => rfl, fun g h => ?_, hi.futures⟩
  · rcases eq_or_ne t' t with rfl | ht'
    · cases m
      · simp only [move, Function.update_self, ne_eq, reduceCtorEq, not_false_eq_true,
          Function.update_of_ne, hi.holder_iff, hpc]
        rfl
      · simp only [move, Function.update_self, true_iff]
        rfl
    · simp only [move, Function.update_of_ne ht']
      cases m
      · simp only [ne_eq, reduceCtorEq, not_false_eq_true, Function.update_of_ne, hi.holder_iff]
      · simp only [Function.update_self, Option.some.injEq, Ne.symm ht', false_iff, Bool.not_eq_true]
        -- the mutex was free, so no other thread held it
        cases h : (s.pcs t').holds .refreshFuture
        · rfl
        · rw [← hi.holder_iff, hfree] at h
          cases h
  · rcases eq_or_ne t' t with rfl | ht''
    · simp [move, Pc.callback]
    · simp only [move, Function.update_of_ne ht'']
      exact hi.ioThread t' ht'
  · rcases eq_or_ne t' t with rfl | ht'
    · simp only [move, Function.update_self] at h
      exact hi.callback t' c' f' (by rw [hpc]; exact h)
    · simp only [move, Function.update_of_ne ht'] at h
      exact hi.callback t' c' f' h
  · rcases eq_or_ne t 0 with rfl | ht
    · simp [move, Pc.notifying] at h
    · simp only [move, Function.update_of_ne (Ne.symm ht)] at h
      rw [hnotify] at h
      cases h
  · rcases eq_or_ne t 0 with rfl | ht
    · simp [move] at h
    · simp only [move, Function.update_of_ne (Ne.symm ht)] at h
      exact hi.refreshing h
  · rw [hempty] at hg
    cases hg
  · rcases eq_or_ne t' t with rfl | ht'
    · simp [move] at h
    · simp only [move, Function.update_of_ne ht'] at h
      exact (ht' (hi.lockFuture_unique t' t c' c f' f h hpc)).elim
  · rcases eq_or_ne t' t with rfl | ht'
    · simp [move] at h
    · simp only [move, Function.update_of_ne ht'] at h
      exact (ht' (hi.lockFuture_unique t' t c' c f' f h hpc)).elim
  · cases h

/-- The callback of a completed query releases both mutexes and returns. -/
lemma Inv.returnCallback (hi : Inv s) {c : Caller} {f : Nat}
    (hpc : s.pcs t = .callbackLockState c f) (hheld : s.holder .refreshFuture = some t) :
    Inv ({ s with holder := Function.update s.holder .refreshFuture none }.move t .idle) := by
  have hnone := hi.lockState t c f hpc
  have hnotify : (s.pcs 0).notifying = false := by
    rcases eq_or_ne t 0 with rfl | ht
    · rw [hpc]
      rfl
    · cases h : (s.pcs 0).notifying
      · rfl
      · rw [(hi.notifying h).2.2 t ht] at hpc
        cases hpc
  refine ⟨fun m t' => ?_, fun t' ht' => ?_, fun t' c' f' h => ?_, fun h => ?_, fun h => ?_,
    hi.closed, hi.inFlight_refresh, hi.inFlight_nodup, hi.inFlight_lt, fun t' c' f' h => ?_,
    fun t' t'' c' c'' f' f'' h h' => ?_, fun t' c' f' h => ?_, fun g h => ?_, hi.futures⟩
  · rcases eq_or_ne t' t with rfl | ht'
    · cases m
      · simp only [move, Function.update_self, ne_eq, reduceCtorEq, not_false_eq_true,
          Function.update_of_ne, hi.holder_iff, hpc]
        simp [Pc.holds]
      · simp [move, Pc.holds]
    · simp only [move, Function.update_of_ne ht']
      cases m
      · simp only [ne_eq, reduceCtorEq, not_false_eq_true, Function.update_of_ne, hi.holder_iff]
      · simp only [Function.update_self, reduceCtorEq, false_iff, Bool.not_eq_true]
        -- the mutex was this thread's
        cases h : (s.pcs t').holds .refreshFuture
        · rfl
        · rw [← hi.holder_iff, hheld] at h
          exact (ht' (Option.some.inj h).symm).elim
  · rcases eq_or_ne t' t with rfl | ht''
    · simp [move, Pc.callback]
    · simp only [move, Function.update_of_ne ht'']
      exact hi.ioThread t' ht'
  · rcases eq_or_ne t' t with rfl | ht'
    · simp [move, Pc.callback] at h
    · simp only [move, Function.update_of_ne ht'] at h
      exact hi.callback t' c' f' h
  · rcases eq_or_ne t 0 with rfl | ht
    · simp [move, Pc.notifying] at h
    · simp only [move, Function.update_of_ne (Ne.symm ht)] at h
      rw [hnotify] at h
      cases h
  · rcases eq_or_ne t 0 with rfl | ht
    · simp [move] at h
    · simp only [move, Function.update_of_ne (Ne.symm ht)] at h
      exact hi.refreshing h
  · rcases eq_or_ne t' t with rfl | ht'
    · simp [move] at h
    · simp only [move, Function.update_of_ne ht'] at h
      exact hi.lockFuture t' c' f' h
  · rcases eq_or_ne t' t with rfl | ht'
    · simp [move] at h
    rcases eq_or_ne t'' t with rfl | ht''
    · simp [move] at h'
    simp only [move, Function.update_of_ne ht', Function.update_of_ne ht''] at h h'
    exact hi.lockFuture_unique t' t'' c' c'' f' f'' h h'
  · rcases eq_or_ne t' t with rfl | ht'
    · simp [move] at h
    · simp only [move, Function.update_of_ne ht'] at h
      exact hi.lockState t' c' f' h
  · rw [hnone] at h
    cases h

/-- A thread finishes the query in flight and sets its future, which runs the callback there. -/
lemma Inv.complete (hi : Inv s) {f : Nat} (hidle : s.pcs t = .idle) (hf : f ∈ s.inFlight) :
    Inv ({ s with
      inFlight := s.inFlight.erase f
      futures := s.futures.modify f fun x => { isSet := true, callbackRuns := x.callbackRuns + 1 } }.move
      t (.callbackLockFuture .completion f)) := by
  have hone := hi.inFlight_eq hf
  have herase : s.inFlight.erase f = [] := by rw [hone, List.erase_cons_head]
  have hsome := hi.inFlight_refresh f hf
  -- no other thread runs a callback, and the session thread is in no notification
  have hnolf : ∀ t' c f', s.pcs t' ≠ .callbackLockFuture c f' := fun t' c f' h => by
    rw [(hi.lockFuture t' c f' h).2] at hf
    cases hf
  have hnols : ∀ t' c f', s.pcs t' ≠ .callbackLockState c f' := fun t' c f' h => by
    rw [hi.lockState t' c f' h] at hsome
    cases hsome
  have hnotify : (s.pcs 0).notifying = false := by
    cases h : (s.pcs 0).notifying
    · rfl
    · rw [(hi.notifying h).2.1] at hf
      cases hf
  refine ⟨fun m t' => ?_, fun t' ht' => ?_, fun t' c' f' h => ?_, fun h => ?_, fun h => ?_,
    fun _ => herase, fun g hg => ?_, ?_, fun g hg => ?_, fun t' c' f' h => ?_,
    fun t' t'' c' c'' f' f'' h h' => ?_, fun t' c' f' h => ?_, fun g h => ?_, fun g hg => ?_⟩
  · rcases eq_or_ne t' t with rfl | ht'
    · simp only [move, Function.update_self, hi.holder_iff, hidle]
      cases m <;> rfl
    · simp only [move, Function.update_of_ne ht', hi.holder_iff]
  · rcases eq_or_ne t' t with rfl | ht''
    · simp [move, Pc.callback]
    · simp only [move, Function.update_of_ne ht'']
      exact hi.ioThread t' ht'
  · simp only [move, List.length_modify]
    rcases eq_or_ne t' t with rfl | ht'
    · simp only [move_pcs, Function.update_self, Pc.callback, Option.some.injEq,
        Prod.mk.injEq] at h
      obtain ⟨rfl, rfl⟩ := h
      exact ⟨rfl, hi.inFlight_lt _ hf⟩
    · simp only [move_pcs, Function.update_of_ne ht'] at h
      exact hi.callback t' c' f' h
  · rcases eq_or_ne t 0 with rfl | ht
    · simp [move, Pc.notifying] at h
    · simp only [move, Function.update_of_ne (Ne.symm ht), hnotify] at h
      cases h
  · rcases eq_or_ne t 0 with rfl | ht
    · simp [move] at h
    · simp only [move, Function.update_of_ne (Ne.symm ht)] at h
      exact hi.refreshing h
  · simp only [move, herase] at hg
    cases hg
  · simp only [move, herase]
    exact List.nodup_nil
  · simp only [move, herase] at hg
    cases hg
  · rcases eq_or_ne t' t with rfl | ht'
    · simp only [move, Function.update_self, Pc.callbackLockFuture.injEq] at h
      obtain ⟨-, rfl⟩ := h
      exact ⟨hsome, herase⟩
    · simp only [move, Function.update_of_ne ht'] at h
      exact (hnolf t' c' f' h).elim
  · -- both stand where the completing thread stands
    have hsame : ∀ u c g, (Function.update s.pcs t (.callbackLockFuture .completion f)) u =
        .callbackLockFuture c g → u = t := by
      intro u c g hu
      by_contra hne
      rw [Function.update_of_ne hne] at hu
      exact hnolf u c g hu
    exact (hsame t' c' f' h).trans (hsame t'' c'' f'' h').symm
  · rcases eq_or_ne t' t with rfl | ht'
    · simp [move] at h
    · simp only [move, Function.update_of_ne ht'] at h
      exact (hnols t' c' f' h).elim
  · simp only [move] at h
    rw [hsome] at h
    cases h
    exact .inr ⟨t, Function.update_self _ _ _⟩
  · simp only [move, List.length_modify] at hg
    simp only [move, herase, List.not_mem_nil, not_false_eq_true, decide_true, if_false]
    rw [getD_modify _ _ _ hg, hi.futures g hg, hone]
    rcases eq_or_ne f g with rfl | hne
    · simp
    · simp [hne, Ne.symm hne]

/-- `close_async` makes a connecting or connected session closing. -/
lemma Inv.closing (hi : Inv s) : Inv { s with session := .closing } where
  holder_iff := hi.holder_iff
  ioThread := hi.ioThread
  callback := hi.callback
  notifying := hi.notifying
  refreshing _ := .inr rfl
  closed h := nomatch h
  inFlight_refresh := hi.inFlight_refresh
  inFlight_nodup := hi.inFlight_nodup
  inFlight_lt := hi.inFlight_lt
  lockFuture := hi.lockFuture
  lockFuture_unique := hi.lockFuture_unique
  lockState := hi.lockState
  outstanding := hi.outstanding
  futures := hi.futures

/-- A thread's step keeps the invariant, one case for each place it can stand. -/
lemma Inv.stepThread (hi : Inv s) {s' : State} (h : s.step (.step t) = some s') : Inv s' := by
  obtain ⟨m, hm, hfree, rfl⟩ := step_step h
  cases hpc : s.pcs t with
  | idle =>
    rw [hpc] at hm
    cases hm
  | refreshLockState =>
    rw [hpc] at hm
    cases hm
    obtain rfl := hi.eq_zero (by rw [hpc]; nofun) (by rw [hpc]; rfl)
    rw [locked_refreshLockState hfree]
    split
    · exact hi.movePlain (by rw [hpc]; rfl) rfl nofun
        fun _ => .inl ‹_›
    · exact hi.movePlain (by rw [hpc]; rfl) rfl nofun nofun
  | refreshLockFuture =>
    rw [hpc] at hm
    cases hm
    obtain rfl := hi.eq_zero (by rw [hpc]; nofun) (by rw [hpc]; rfl)
    cases hrf : s.refreshFuture with
    | none =>
      rw [locked_refreshLockFuture_none hfree hrf]
      exact hi.send hpc hfree hrf
    | some f =>
      rw [locked_refreshLockFuture_some hfree hrf]
      exact hi.movePlain (by rw [hpc]; rfl) rfl nofun nofun
  | connectedLockState =>
    rw [hpc] at hm
    cases hm
    obtain rfl := hi.eq_zero (by rw [hpc]; nofun) (by rw [hpc]; rfl)
    refine hi.enterNotify (by rw [hpc]; rfl) (Pc.holds_of_plain (by rw [hpc]; rfl)) (fun hσ => hi.closed ?_) (.inl rfl)
    split at hσ
    · cases hσ
    · exact hσ
  | connectedLockFuture =>
    rw [hpc] at hm
    cases hm
    obtain rfl := hi.eq_zero (by rw [hpc]; nofun) (by rw [hpc]; rfl)
    have hheld := (hi.holder_iff .state 0).2 (by rw [hpc]; rfl)
    rw [locked_notify_none (.inl rfl) hfree hheld (hi.notifying (by rw [hpc]; rfl)).1]
    exact hi.leaveNotify (.inl hpc)
  | closedLockState =>
    rw [hpc] at hm
    cases hm
    obtain rfl := hi.eq_zero (by rw [hpc]; nofun) (by rw [hpc]; rfl)
    exact hi.enterNotify (by rw [hpc]; rfl) (Pc.holds_of_plain (by rw [hpc]; rfl))
      (fun _ => (hi.notifying (by rw [hpc]; rfl)).2.1) (.inr rfl)
  | closedLockFuture =>
    rw [hpc] at hm
    cases hm
    obtain rfl := hi.eq_zero (by rw [hpc]; nofun) (by rw [hpc]; rfl)
    have hheld := (hi.holder_iff .state 0).2 (by rw [hpc]; rfl)
    rw [locked_notify_none (.inr rfl) hfree hheld (hi.notifying (by rw [hpc]; rfl)).1]
    exact hi.leaveNotify (.inr hpc)
  | callbackLockFuture c f =>
    rw [hpc] at hm
    cases hm
    exact hi.resetFuture hpc hfree
  | callbackLockState c f =>
    rw [hpc] at hm
    cases hm
    -- a callback runs for a completed query, which holds `refresh_metadata_future_mutex_`
    obtain ⟨rfl, -⟩ := hi.callback t c f (by rw [hpc]; rfl)
    have hheld := (hi.holder_iff .refreshFuture t).2 (by rw [hpc]; rfl)
    rw [locked_callbackLockState hfree hheld]
    exact hi.returnCallback hpc hheld

/-- Every step the session allows keeps the invariant. -/
theorem Inv.step (hi : Inv s) {e : Event} {s' : State} (ha : Allowed s e)
    (h : s.step e = some s') : Inv s' := by
  cases e with
  | start p =>
    simp only [State.step] at h
    split at h
    · rename_i hidle
      cases h
      cases p with
      | onRefreshMetadata =>
        exact hi.movePlain (by rw [hidle]; rfl) rfl nofun nofun
      | notifyConnected =>
        -- no future made yet: nothing in flight, no callback, and so no outstanding refresh
        have hnocb : ∀ t c f, (s.pcs t).callback ≠ some (c, f) := fun t c f hcb => by
          have := (hi.callback t c f hcb).2
          rw [show s.futures = [] from ha] at this
          cases this
        have hempty : s.inFlight = [] := List.eq_nil_iff_forall_not_mem.2 fun f hf => by
          have := hi.inFlight_lt f hf
          rw [show s.futures = [] from ha] at this
          cases this
        refine hi.movePlain (by rw [hidle]; rfl) rfl (fun _ => ⟨?_, hempty, fun t ht => ?_⟩) nofun
        · cases hrf : s.refreshFuture with
          | none => rfl
          | some f =>
            rcases hi.outstanding f hrf with hf | ⟨t, ht⟩
            · rw [hempty] at hf
              cases hf
            · exact (hnocb t _ f (by rw [ht]; rfl)).elim
        · rcases hi.ioThread t ht with h | h
          · exact h
          · obtain ⟨⟨c, f⟩, hcf⟩ := Option.isSome_iff_exists.1 h
            exact (hnocb t c f hcf).elim
      | notifyClosed =>
        -- every I/O thread joined: nothing in flight, and no callback holds the pointer
        obtain ⟨-, hempty, hjoined⟩ := ha
        refine hi.movePlain (by rw [hidle]; rfl) rfl (fun _ => ⟨?_, hempty, hjoined⟩) nofun
        cases hrf : s.refreshFuture with
        | none => rfl
        | some f =>
          rcases hi.outstanding f hrf with hf | ⟨t, ht⟩
          · rw [hempty] at hf
            cases hf
          · rcases eq_or_ne t 0 with rfl | ht0
            · rw [hidle] at ht
              cases ht
            · rw [hjoined t ht0] at ht
              cases ht
    · cases h
  | step t => exact hi.stepThread h
  | complete t f =>
    simp only [State.step] at h
    split at h
    · rename_i hc
      -- the future in flight is not set yet
      have hunset : (s.futures.getD f {}).isSet = false := by
        rw [hi.futures f (hi.inFlight_lt f hc.2)]
        simp [hc.2]
      rw [if_neg (by rw [hunset]; nofun)] at h
      cases h
      exact hi.complete hc.1 hc.2
    · cases h
  | closeAsync =>
    simp only [State.step] at h
    split at h
    · cases h
      split
      · exact hi.closing
      · exact hi
    · cases h

end State

/-- What holds in every state the session reaches. -/
theorem Reachable.inv {s : State} (hr : Reachable s) : s.Inv := by
  induction hr with
  | init => exact State.inv_init
  | step _ ha h ih => exact ih.step ha h

end SessionRefresh

end CassandraDriver
