import Mathlib.Data.List.Nodup

/-!
# Connecting and closing a session

`Session::connect_async` and `Session::close_async` run on application threads, under
`state_mutex_`; `notify_connected`, `notify_connect_error` and `notify_closed` run on the session's
event loop thread, which `connect_async` starts and which ends once the I/O workers have closed
(`on_after_run`). `state_` goes from `CLOSED` to `CONNECTING`, then `CONNECTED`, then `CLOSING`
and back to `CLOSED`. The session keeps the future of the pending connect and of the pending close
(`connect_future_`, `close_future_`) and sets each when the matching notification comes; a call
that finds the session in the wrong state sets its future with an error at once. Closing puts a
`NULL` into the request queue (`internal_close`), which `Session::on_execute` takes as the signal
to close the I/O workers.

Each method holds `state_mutex_` throughout, so it is one step here. Futures are known by ids, and
two records that no step reads follow the run: the futures handed to the session, and every
setting of a future, in order. The session thread's notifications happen only while it runs, and
the loop ends only after the `NULL` went into the queue.

* Over every run, no future is set twice, and every future handed to the session is set or held
  by it; once the session is closed, every one of them has been set exactly once
  (`futures_completed_once`).
* A close while connecting ends the connect with the code `CASS_OK`: `notify_closed` sets the
  connect future with `connect_error_code_`, which only `notify_connect_error` changes from
  `CASS_OK`, so the application is told the connect succeeded while the session is closed
  (`closeWhileConnecting_connectOk`).
-/

namespace CassandraDriver.Session

/-- `Session::State`. -/
inductive State
  | connecting
  | connected
  | closing
  | closed
  deriving DecidableEq, Repr

/-- The `CassError`s the connect and close paths set on their futures: `CASS_OK`, the initial
`connect_error_code_`, the library errors the session names, and any other code a failed
connection reports. -/
inductive CassErrorCode
  | ok
  | libUnableToConnect
  | libUnableToInit
  | libUnableToClose
  | libNoHostsAvailable
  | libUnableToSetKeyspace
  | other (code : Nat)
  deriving DecidableEq, Repr

/-- How a future is set: `Future::set`, or `Future::set_error` with a code and a message. -/
inductive Completion
  | set
  | error (code : CassErrorCode) (message : String)
  deriving DecidableEq, Repr

/-- The fields of `Session` that connecting and closing read and write, with futures by their
ids; whether the session thread runs; and the records no step reads: the futures handed to the
session and the settings of futures, in order. `closeEntries` counts the `NULL` entries in the
request queue, which `clear` replaces by a new one. -/
structure Lifecycle where
  state : State
  connectFuture : Option Nat
  closeFuture : Option Nat
  connectErrorCode : CassErrorCode
  connectErrorMessage : String
  running : Bool
  closeEntries : Nat
  handed : List Nat
  completions : List (Nat × Completion)
  deriving DecidableEq, Repr

namespace Lifecycle

/-- A session that was never connected. -/
def new : Lifecycle := ⟨.closed, none, none, .ok, "", false, 0, [], []⟩

/-- A future handed to the session by an application thread. -/
def hand (s : Lifecycle) (f : Nat) : Lifecycle := { s with handed := s.handed ++ [f] }

/-- Future `f` is set. -/
def complete (s : Lifecycle) (f : Nat) (c : Completion) : Lifecycle :=
  { s with completions := s.completions ++ [(f, c)] }

/-- The part of `Session::clear` that connecting reads again: no future held, `CASS_OK` as the
connect error, and a new request queue. -/
def clear (s : Lifecycle) : Lifecycle :=
  { s with connectFuture := none, closeFuture := none, connectErrorCode := .ok,
           connectErrorMessage := "", closeEntries := 0 }

/-- `Session::internal_close`: a `NULL` into the request queue (retried until it goes in). -/
def internalClose (s : Lifecycle) : Lifecycle := { s with closeEntries := s.closeEntries + 1 }

end Lifecycle

open Lifecycle

/-- `Session::connect_async` with future `f`: refused unless the session is closed; otherwise the
session is cleared, and `init()` and the `CONNECT` event must succeed before the session starts
connecting and keeps `f`. -/
def connectAsync (s : Lifecycle) (f : Nat) (initOk sendOk : Bool) : Lifecycle :=
  if s.state ≠ .closed then
    s.complete f (.error .libUnableToConnect "Already connecting, connected or closed")
  else if !initOk then
    s.clear.complete f (.error .libUnableToInit "Error initializing session")
  else if !sendOk then
    s.clear.complete f (.error .libUnableToConnect "Unable to enqueue connected event")
  else { s.clear with state := .connecting, connectFuture := some f, running := true }

/-- `Session::close_async` with future `f`: refused while closing or closed; otherwise the session
starts closing, keeps `f` and puts the `NULL` into the request queue. -/
def closeAsync (s : Lifecycle) (f : Nat) : Lifecycle :=
  if s.state = .closing ∨ s.state = .closed then
    s.complete f (.error .libUnableToClose "Already closing or closed")
  else internalClose { s with state := .closing, closeFuture := some f }

/-- `Session::notify_connected`: a connecting session is connected, and the connect future is set
in any state. -/
def notifyConnected (s : Lifecycle) : Lifecycle :=
  let s := if s.state = .connecting then { s with state := .connected } else s
  match s.connectFuture with
  | some f => { s.complete f .set with connectFuture := none }
  | none => s

/-- `Session::notify_connect_error`: unless the session is closing or closed, it records the
error and starts closing. -/
def notifyConnectError (s : Lifecycle) (code : CassErrorCode) (message : String) : Lifecycle :=
  if s.state = .closing ∨ s.state = .closed then s
  else internalClose { s with state := .closing, connectErrorCode := code,
                              connectErrorMessage := message }

/-- `Session::notify_closed`: the session is closed, the connect future is set with the recorded
connect error, and the close future is set. -/
def notifyClosed (s : Lifecycle) : Lifecycle :=
  let s := { s with state := .closed }
  let s := match s.connectFuture with
    | some f =>
      { s.complete f (.error s.connectErrorCode s.connectErrorMessage) with connectFuture := none }
    | none => s
  match s.closeFuture with
  | some f => { s.complete f .set with closeFuture := none }
  | none => s

/-- What happens to the session: the two calls of application threads, with the future they
hand over (and, for a connect, whether `init()` and sending the `CONNECT` event succeed), and the
notifications of the session thread; `afterRun` is the end of its loop, `on_after_run`. -/
inductive Event
  | connectAsync (f : Nat) (initOk sendOk : Bool)
  | closeAsync (f : Nat)
  | notifyConnected
  | notifyConnectError (code : CassErrorCode) (message : String)
  | afterRun
  deriving DecidableEq, Repr

/-- When an event can happen: each call hands over a future not handed before; the session
thread notifies only while it runs, and its loop ends only once the `NULL` is in the request
queue. -/
def Allowed (s : Lifecycle) : Event → Prop
  | .connectAsync f _ _ | .closeAsync f => f ∉ s.handed
  | .notifyConnected | .notifyConnectError _ _ => s.running = true
  | .afterRun => s.running = true ∧ 0 < s.closeEntries

instance (s : Lifecycle) : DecidablePred (Allowed s)
  | .connectAsync f _ _ => inferInstanceAs (Decidable (f ∉ s.handed))
  | .closeAsync f => inferInstanceAs (Decidable (f ∉ s.handed))
  | .notifyConnected => inferInstanceAs (Decidable (s.running = true))
  | .notifyConnectError _ _ => inferInstanceAs (Decidable (s.running = true))
  | .afterRun => inferInstanceAs (Decidable (s.running = true ∧ 0 < s.closeEntries))

/-- One event. -/
def step (s : Lifecycle) : Event → Lifecycle
  | .connectAsync f initOk sendOk => connectAsync (s.hand f) f initOk sendOk
  | .closeAsync f => closeAsync (s.hand f) f
  | .notifyConnected => notifyConnected s
  | .notifyConnectError code message => notifyConnectError s code message
  | .afterRun => { notifyClosed s with running := false }

/-- The events in order, `none` if one is not allowed. -/
def run (s : Lifecycle) : List Event → Option Lifecycle
  | [] => some s
  | e :: es => if Allowed s e then run (step s e) es else none

/-- The states some run of allowed events reaches from a session never connected. -/
inductive Reachable : Lifecycle → Prop
  | new : Reachable Lifecycle.new
  | step {s : Lifecycle} {e : Event} : Reachable s → Allowed s e → Reachable (step s e)

lemma Reachable.run {s s' : Lifecycle} {es : List Event} (hs : Reachable s)
    (hrun : run s es = some s') : Reachable s' := by
  induction es generalizing s with
  | nil =>
    cases hrun
    exact hs
  | cons e es ih =>
    rw [Session.run] at hrun
    split_ifs at hrun with he
    exact ih (hs.step he) hrun

/-! ### The invariant -/

/-- The futures the session holds: `connect_future_`, then `close_future_`. -/
def Lifecycle.held (s : Lifecycle) : List Nat := s.connectFuture.toList ++ s.closeFuture.toList

/-- The invariant of a session's life cycle. The futures handed over are distinct, and each is set
once or held, and not both (`book`). A closed session holds no future and its thread has ended; a
connecting or connected one holds no close future, has no connect error, no `NULL` in its queue,
and runs; a connecting one holds its connect future; a closing one runs, with one `NULL` in its
queue. -/
structure Inv (s : Lifecycle) : Prop where
  handed_nodup : s.handed.Nodup
  book : (s.completions.map Prod.fst ++ s.held).Perm s.handed
  closed : s.state = .closed → s.held = [] ∧ s.running = false
  live : s.state = .connecting ∨ s.state = .connected →
    s.closeFuture = none ∧ s.connectErrorCode = .ok ∧ s.connectErrorMessage = "" ∧
      s.closeEntries = 0 ∧ s.running = true
  connecting : s.state = .connecting → s.connectFuture.isSome
  closing : s.state = .closing → s.running = true ∧ s.closeEntries = 1

section Steps

variable {s : Lifecycle} {f : Nat}

/-- A future set as soon as it is handed over keeps the book. -/
lemma Inv.hand_complete (h : Inv s) (hf : f ∉ s.handed) (c : Completion) :
    Inv ((s.hand f).complete f c) where
  handed_nodup := h.handed_nodup.append (List.nodup_singleton f)
    (List.disjoint_singleton.mpr hf)
  book := by
    simp only [complete, hand, held, List.map_append, List.map_cons, List.map_nil]
    have hswap : (s.completions.map Prod.fst ++ [f] ++ s.held).Perm
        (s.completions.map Prod.fst ++ s.held ++ [f]) := by
      rw [List.append_assoc, List.append_assoc]
      exact List.perm_append_comm.append_left _
    exact hswap.trans (h.book.append_right [f])
  closed := h.closed
  live := h.live
  connecting := h.connecting
  closing := h.closing

/-- Clearing a closed session loses no future: it holds none. -/
lemma Inv.clear (h : Inv s) (hc : s.state = .closed) : Inv s.clear where
  handed_nodup := h.handed_nodup
  book := by
    have hheld : s.clear.held = s.held := by
      rw [(h.closed hc).1]
      rfl
    rw [hheld]
    exact h.book
  closed _ := ⟨rfl, (h.closed hc).2⟩
  live hl := by
    rw [show s.clear.state = s.state from rfl, hc] at hl
    rcases hl with hl | hl <;> cases hl
  connecting hl := by
    rw [show s.clear.state = s.state from rfl, hc] at hl
    cases hl
  closing hl := by
    rw [show s.clear.state = s.state from rfl, hc] at hl
    cases hl

lemma Inv.connectAsync (h : Inv s) (hf : f ∉ s.handed) (initOk sendOk : Bool) :
    Inv (connectAsync (s.hand f) f initOk sendOk) := by
  unfold Session.connectAsync
  by_cases hc : s.state = .closed
  · have hhand : (s.hand f).state = .closed := hc
    rw [if_neg (not_not.mpr hhand)]
    have hclear := h.clear hc
    split_ifs
    · exact hclear.hand_complete hf _
    · exact hclear.hand_complete hf _
    · -- the session starts connecting and keeps `f`
      have hheld := (h.closed hc).1
      refine ⟨h.handed_nodup.append (List.nodup_singleton f) (List.disjoint_singleton.mpr hf),
        ?_, ?_, ?_, ?_, ?_⟩
      · simp only [held, Option.toList_some, hand]
        have hbook := h.book
        rw [hheld, List.append_nil] at hbook
        exact hbook.append_right [f]
      · intro hs
        cases hs
      · intro _
        exact ⟨rfl, rfl, rfl, rfl, rfl⟩
      · intro _
        rfl
      · intro hs
        cases hs
  · have hhand : (s.hand f).state ≠ .closed := hc
    rw [if_pos hhand]
    exact h.hand_complete hf _

lemma Inv.closeAsync (h : Inv s) (hf : f ∉ s.handed) : Inv (closeAsync (s.hand f) f) := by
  unfold Session.closeAsync
  split_ifs with hcl
  · exact h.hand_complete hf _
  · -- a connecting or connected session starts closing, keeps `f` and queues the `NULL`
    have hlive : s.state = .connecting ∨ s.state = .connected := by
      simp only [hand] at hcl
      cases hs : s.state <;> simp_all
    obtain ⟨hnone, -, -, hentries, hrun⟩ := h.live hlive
    refine ⟨h.handed_nodup.append (List.nodup_singleton f) (List.disjoint_singleton.mpr hf),
      ?_, ?_, ?_, ?_, ?_⟩
    · simp only [internalClose, held, hand, Option.toList_some]
      have hbook := h.book
      rw [held, hnone, Option.toList_none, List.append_nil] at hbook
      rw [← List.append_assoc]
      exact hbook.append_right [f]
    · intro hs
      cases hs
    · rintro (hs | hs) <;> cases hs
    · intro hs
      cases hs
    · intro _
      simp only [internalClose, hand]
      exact ⟨hrun, by rw [hentries]⟩

lemma Inv.notifyConnected (h : Inv s) : Inv (notifyConnected s) := by
  -- the state moves first, then the connect future is set
  set t := if s.state = .connecting then { s with state := .connected } else s with ht
  have hmid : Inv t := by
    rw [ht]
    split_ifs with hs
    · obtain ⟨hnone, hcode, hmsg, hentries, hrun⟩ := h.live (.inl hs)
      exact ⟨h.handed_nodup, h.book, (fun hc => by cases hc),
        (fun _ => ⟨hnone, hcode, hmsg, hentries, hrun⟩), (fun hc => by cases hc),
        (fun hc => by cases hc)⟩
    · exact h
  have hnot : t.state ≠ .connecting := by
    rw [ht]
    split_ifs with hs
    · intro hc
      cases hc
    · exact hs
  show Inv (match t.connectFuture with
    | some f => { t.complete f .set with connectFuture := none }
    | none => t)
  cases hcf : t.connectFuture with
  | none => exact hmid
  | some g =>
    have hclosed : t.state ≠ .closed := by
      intro hc
      have hheld := (hmid.closed hc).1
      rw [held, hcf] at hheld
      cases hheld
    refine ⟨hmid.handed_nodup, ?_, fun hc => absurd hc hclosed, hmid.live,
      fun hc => absurd hc hnot, hmid.closing⟩
    have hbook := hmid.book
    rw [held, hcf] at hbook
    simpa [complete, held] using hbook

lemma Inv.notifyConnectError (h : Inv s) (code : CassErrorCode) (message : String) :
    Inv (notifyConnectError s code message) := by
  unfold Session.notifyConnectError
  split_ifs with hcl
  · exact h
  · -- a connecting or connected session starts closing and queues the `NULL`
    have hlive : s.state = .connecting ∨ s.state = .connected := by
      cases hs : s.state <;> simp_all
    obtain ⟨-, -, -, hentries, hrun⟩ := h.live hlive
    refine ⟨h.handed_nodup, h.book, ?_, ?_, ?_, ?_⟩
    · intro hs
      cases hs
    · rintro (hs | hs) <;> cases hs
    · intro hs
      cases hs
    · intro _
      exact ⟨hrun, by simp only [internalClose, hentries]⟩

/-- Only a closing session's loop ends: a connecting or connected one has no `NULL` in its queue,
and a closed one's thread has ended. -/
lemma Inv.closing_of_afterRun (h : Inv s) (hrun : s.running = true) (hpos : 0 < s.closeEntries) :
    s.state = .closing := by
  cases hs : s.state with
  | connecting =>
    have := (h.live (.inl hs)).2.2.2.1
    omega
  | connected =>
    have := (h.live (.inr hs)).2.2.2.1
    omega
  | closing => rfl
  | closed =>
    rw [(h.closed hs).2] at hrun
    cases hrun

lemma notifyClosed_state (s : Lifecycle) : (notifyClosed s).state = .closed := by
  unfold notifyClosed
  cases s.connectFuture <;> cases s.closeFuture <;> simp [complete]

lemma notifyClosed_handed (s : Lifecycle) : (notifyClosed s).handed = s.handed := by
  unfold notifyClosed
  cases s.connectFuture <;> cases s.closeFuture <;> simp [complete]

lemma notifyClosed_held (s : Lifecycle) : (notifyClosed s).held = [] := by
  unfold notifyClosed
  cases hcf : s.connectFuture <;> cases hcl : s.closeFuture <;> simp_all [complete, held]

/-- `notify_closed` sets every future the session held, the connect future first. -/
lemma notifyClosed_completions (s : Lifecycle) :
    (notifyClosed s).completions.map Prod.fst = s.completions.map Prod.fst ++ s.held := by
  unfold notifyClosed
  cases hcf : s.connectFuture <;> cases hcl : s.closeFuture <;> simp [hcf, hcl, complete, held]

/-- `notify_closed` sets the connect future with the recorded connect error. -/
lemma mem_notifyClosed_completions {s : Lifecycle} {g : Nat} (hg : s.connectFuture = some g) :
    (g, .error s.connectErrorCode s.connectErrorMessage) ∈ (notifyClosed s).completions := by
  unfold notifyClosed
  simp only [hg]
  cases s.closeFuture <;> simp [complete]

lemma Inv.afterRun (h : Inv s) : Inv { notifyClosed s with running := false } := by
  have hst : ({ notifyClosed s with running := false } : Lifecycle).state = .closed :=
    notifyClosed_state s
  refine ⟨?_, ?_, fun _ => ⟨notifyClosed_held s, rfl⟩, ?_, ?_, ?_⟩
  · show (notifyClosed s).handed.Nodup
    rw [notifyClosed_handed]
    exact h.handed_nodup
  · show ((notifyClosed s).completions.map Prod.fst ++ (notifyClosed s).held).Perm
      (notifyClosed s).handed
    rw [notifyClosed_completions, notifyClosed_held, notifyClosed_handed, List.append_nil]
    exact h.book
  · rw [hst]
    rintro (hs | hs) <;> cases hs
  · rw [hst]
    intro hs
    cases hs
  · rw [hst]
    intro hs
    cases hs

/-- Every allowed event keeps the invariant. -/
theorem Inv.step (h : Inv s) {e : Event} (he : Allowed s e) : Inv (step s e) := by
  cases e with
  | connectAsync f initOk sendOk => exact h.connectAsync he initOk sendOk
  | closeAsync f => exact h.closeAsync he
  | notifyConnected => exact h.notifyConnected
  | notifyConnectError code message => exact h.notifyConnectError code message
  | afterRun => exact h.afterRun

end Steps

lemma inv_new : Inv Lifecycle.new :=
  ⟨List.nodup_nil, List.Perm.refl _, (fun _ => ⟨rfl, rfl⟩),
    (fun hs => by rcases hs with hs | hs <;> cases hs), (fun hs => by cases hs),
    (fun hs => by cases hs)⟩

theorem Reachable.inv {s : Lifecycle} (hr : Reachable s) : Inv s := by
  induction hr with
  | new => exact inv_new
  | step _ he ih => exact ih.step he

/-- Over every run, no future is set twice and every future handed to the session is set or
held by it; once the session is closed, every one of them has been set. -/
theorem futures_completed_once {s : Lifecycle} (hr : Reachable s) :
    (s.completions.map Prod.fst).Nodup ∧
      (∀ f ∈ s.handed, f ∈ s.completions.map Prod.fst ∨ f ∈ s.held) ∧
      (s.state = .closed → ∀ f ∈ s.handed, f ∈ s.completions.map Prod.fst) := by
  have h := hr.inv
  have hnodup : (s.completions.map Prod.fst ++ s.held).Nodup := h.book.nodup_iff.mpr h.handed_nodup
  refine ⟨(List.nodup_append.mp hnodup).1, ?_, ?_⟩
  · intro f hf
    exact List.mem_append.mp (h.book.mem_iff.mpr hf)
  · intro hc f hf
    have hmem := h.book.mem_iff.mpr hf
    rw [(h.closed hc).1, List.append_nil] at hmem
    exact hmem

/-- Connecting, getting connected and closing: the two futures are set once each. -/
def connectThenClose : List Event :=
  [.connectAsync 1 true true, .notifyConnected, .closeAsync 2, .afterRun]

/-- The session `connectThenClose` leaves. -/
def closedAfterConnect : Lifecycle :=
  ⟨.closed, none, none, .ok, "", false, 1, [1, 2], [(1, .set), (2, .set)]⟩

theorem futures_completed_once_connectThenClose :
    Reachable closedAfterConnect ∧
      ((closedAfterConnect.completions.map Prod.fst).Nodup ∧
        (∀ f ∈ closedAfterConnect.handed,
          f ∈ closedAfterConnect.completions.map Prod.fst ∨ f ∈ closedAfterConnect.held) ∧
        (closedAfterConnect.state = .closed →
          ∀ f ∈ closedAfterConnect.handed, f ∈ closedAfterConnect.completions.map Prod.fst)) :=
  have hr : Reachable closedAfterConnect :=
    Reachable.new.run (show run Lifecycle.new connectThenClose = some closedAfterConnect from rfl)
  ⟨hr, futures_completed_once hr⟩

/-- A close while connecting ends the connect with `CASS_OK`: the session is closed, and the
connect future it held is set with the code `CASS_OK` and no message. -/
theorem closeWhileConnecting_connectOk {s : Lifecycle} (hr : Reachable s)
    (hc : s.state = .connecting) {f : Nat} (hf : f ∉ s.handed) :
    ∃ g s', s.connectFuture = some g ∧ run s [.closeAsync f, .afterRun] = some s' ∧
      s'.state = .closed ∧ (g, .error .ok "") ∈ s'.completions := by
  have h := hr.inv
  obtain ⟨g, hg⟩ := Option.isSome_iff_exists.mp (h.connecting hc)
  obtain ⟨-, hcode, hmsg, -, hrun⟩ := h.live (.inl hc)
  -- the close puts the session into `CLOSING`, and its `NULL` lets the loop end
  set t := internalClose { s.hand f with state := .closing, closeFuture := some f } with ht
  have hstep : step s (.closeAsync f) = t := by
    have hopen : ¬((s.hand f).state = .closing ∨ (s.hand f).state = .closed) := by
      simp [hand, hc]
    rw [step, Session.closeAsync, if_neg hopen]
  have hclose : Allowed s (.closeAsync f) := hf
  have hend : Allowed t .afterRun := ⟨hrun, Nat.succ_pos _⟩
  refine ⟨g, { notifyClosed t with running := false }, hg, ?_, notifyClosed_state t, ?_⟩
  · rw [Session.run, if_pos hclose, hstep, Session.run, if_pos hend]
    rfl
  · have hmem := mem_notifyClosed_completions (s := t) hg
    rw [show t.connectErrorCode = .ok from hcode, show t.connectErrorMessage = "" from hmsg] at hmem
    exact hmem

/-- A session that is connecting, with its connect future `1`. -/
def connectingSession : Lifecycle := ⟨.connecting, some 1, none, .ok, "", true, 0, [1], []⟩

theorem closeWhileConnecting_connectOk_connectingSession :
    Reachable connectingSession ∧ connectingSession.state = .connecting ∧
      2 ∉ connectingSession.handed ∧
      ∃ g s', connectingSession.connectFuture = some g ∧
        run connectingSession [.closeAsync 2, .afterRun] = some s' ∧ s'.state = .closed ∧
        (g, .error .ok "") ∈ s'.completions :=
  have hr : Reachable connectingSession :=
    Reachable.new.run
      (show run Lifecycle.new [.connectAsync 1 true true] = some connectingSession from rfl)
  ⟨hr, rfl, by decide, closeWhileConnecting_connectOk hr rfl (by decide)⟩

end CassandraDriver.Session
