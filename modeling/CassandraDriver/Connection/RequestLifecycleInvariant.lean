import CassandraDriver.Connection.RequestLifecycle

/-!
# The invariant of the requests on a connection

Where a request stands is read off its state (`Placed`): a request being written is in a pending
write and holds its stream, and the server holds it once its write is queued; a request whose
response came first is in a queued write and holds no stream; a request being read is in
`pending_reads_`, holds its stream, and the server holds it; any other request is in no list and
holds no stream, and is either untouched or ended. Besides, every callback counts its ending,
its dropped reference and its released stream at most once each (`Counted`), and no assertion
fails. `Inv` is kept by every event the event loop delivers, so it holds of every reachable
connection (`Reachable.inv`).

Each handler changes one callback, and for the others it keeps what the placement looks at
(`Frames`); the loops of `on_write` and `on_close` are handled one callback at a time.
-/

namespace CassandraDriver

namespace RequestCallback

/-- Where a request stands: being written, answered before its write completed, being read, or
none of these. -/
inductive Stage
  | writing
  | readBeforeWrite
  | reading
  | done
  deriving DecidableEq

/-- The stage of a state: a cancelled state stands where the state it came from stood. -/
def State.stage : State → Stage
  | .writing | .cancelledWriting => .writing
  | .readBeforeWrite | .cancelledReadBeforeWrite => .readBeforeWrite
  | .reading | .cancelledReading => .reading
  | .new | .cancelled | .finished => .done

/-- A cancellation the assertion of `set_state` allows leads to a cancelled state of the same
stage. -/
lemma setState_cancelled {s : State} (hs : ¬s.IsCancelled) :
    ∃ s', setState s .cancelled = some s' ∧ s'.IsCancelled ∧ s'.stage = s.stage := by
  cases s with
  | new => exact ⟨.cancelled, rfl, trivial, rfl⟩
  | writing => exact ⟨.cancelledWriting, rfl, trivial, rfl⟩
  | reading => exact ⟨.cancelledReading, rfl, trivial, rfl⟩
  | readBeforeWrite => exact ⟨.cancelledReadBeforeWrite, rfl, trivial, rfl⟩
  | finished => exact ⟨.cancelled, rfl, trivial, rfl⟩
  | cancelled | cancelledWriting | cancelledReading | cancelledReadBeforeWrite =>
    exact absurd trivial hs

/-- The one cancelled state that stands nowhere. -/
lemma State.eq_cancelled {s : State} (hc : s.IsCancelled) (hs : s.stage = .done) :
    s = .cancelled := by
  cases s <;> simp_all [State.IsCancelled, State.stage]

end RequestCallback

namespace Connection

open RequestCallback

/-! ### The placement of a request -/

/-- The request is in a pending write. -/
def InWrites (c : Connection) (r : Nat) : Prop := r ∈ c.writeCallbacks

/-- The request is in a write that `uv_write` accepted. -/
def InQueuedWrite (c : Connection) (r : Nat) : Prop :=
  ∃ pw ∈ c.flushedWrites, pw.queued = true ∧ r ∈ pw.callbacks

/-- The stream manager holds the callback's stream for it, and no other. -/
def HoldsStream (c : Connection) (r : Nat) : Prop :=
  ∀ s, c.streamManager.pending.lookup s = some r ↔ s = (c.callbacks r).stream

/-- The stream manager holds no stream for the request. -/
def HoldsNone (c : Connection) (r : Nat) : Prop :=
  ∀ s, c.streamManager.pending.lookup s ≠ some r

/-- `WRITING` and `CANCELLED_WRITING`. -/
structure WritingPlaced (c : Connection) (r : Nat) : Prop where
  refs : (c.callbacks r).refs = 1
  endings : (c.callbacks r).endings = []
  releases : (c.callbacks r).releases = 0
  inWrites : InWrites c r
  holds : HoldsStream c r
  sent_iff : (c.callbacks r).sent = true ↔ InQueuedWrite c r

/-- `READ_BEFORE_WRITE` and `CANCELLED_READ_BEFORE_WRITE`. -/
structure ReadBeforeWritePlaced (c : Connection) (r : Nat) : Prop where
  refs : (c.callbacks r).refs = 1
  endings : (c.callbacks r).endings = []
  releases : (c.callbacks r).releases = 1
  queued : InQueuedWrite c r
  holdsNone : HoldsNone c r
  sent : (c.callbacks r).sent = false

/-- `READING` and `CANCELLED_READING`. -/
structure ReadingPlaced (c : Connection) (r : Nat) : Prop where
  refs : (c.callbacks r).refs = 1
  endings : (c.callbacks r).endings = []
  releases : (c.callbacks r).releases = 0
  inReads : r ∈ c.pendingReads
  holds : HoldsStream c r
  sent : (c.callbacks r).sent = true

/-- `NEW`, `FINISHED` and `CANCELLED`: untouched by the connection, or ended, with its stream
released. -/
structure DonePlaced (c : Connection) (r : Nat) : Prop where
  notInWrites : ¬InWrites c r
  notInReads : r ∉ c.pendingReads
  holdsNone : HoldsNone c r
  sent : (c.callbacks r).sent = true → c.isClosing = true
  ended : (c.callbacks r).refs = 1 →
    (c.callbacks r).endings ≠ [] ∧ (c.callbacks r).releases = 1

/-- Where a request stands, by the stage of its state. -/
def Placed (c : Connection) (r : Nat) : Prop :=
  match (c.callbacks r).state.stage with
  | .writing => WritingPlaced c r
  | .readBeforeWrite => ReadBeforeWritePlaced c r
  | .reading => ReadingPlaced c r
  | .done => DonePlaced c r

/-- What the connection did to a callback, each at most once: its reference taken, then its
ending with the reference dropped, and its stream released; a callback the connection never
took is new, or cancelled; an ending `on_cancel`, or a cancelled state, only after a
cancellation. -/
structure Counted (cb : Callback) : Prop where
  refs_le : cb.refs ≤ 1
  drops_eq : cb.drops = cb.endings.length
  endings_le : cb.endings.length ≤ cb.refs
  releases_le : cb.releases ≤ cb.refs
  untouched : cb.refs = 0 → cb.state = .new ∨ cb.state = .cancelled
  cancelRequested_of_isCancelled : cb.state.IsCancelled → cb.cancelRequested = true
  cancelRequested_of_cancel : Ending.cancel ∈ cb.endings → cb.cancelRequested = true

/-- The invariant of a connection. -/
structure Inv (c : Connection) : Prop where
  streams : StreamManager.Inv c.streamManager
  nodup : (c.pendingReads ++ c.writeCallbacks).Nodup
  failures : c.failures = 0
  counted : ∀ r, Counted (c.callbacks r)
  placed : c.isClosed = false → ∀ r, Placed c r
  closed : c.isClosed = true →
    c.isClosing = true ∧ ∀ r, (c.callbacks r).endings.length = (c.callbacks r).refs

/-! ### Frames -/

/-- Two callbacks the placement cannot tell apart. -/
structure Alike (cb cb' : Callback) : Prop where
  stage : cb'.state.stage = cb.state.stage
  refs : cb'.refs = cb.refs
  endings : cb'.endings = cb.endings
  releases : cb'.releases = cb.releases
  stream : cb'.stream = cb.stream
  sent : cb'.sent = cb.sent

lemma Alike.of_eq {cb cb' : Callback} (h : cb' = cb) : Alike cb cb' := by
  subst h
  exact ⟨rfl, rfl, rfl, rfl, rfl, rfl⟩

lemma Alike.trans {cb cb' cb'' : Callback} (h : Alike cb cb') (h' : Alike cb' cb'') :
    Alike cb cb'' :=
  ⟨h'.stage.trans h.stage, h'.refs.trans h.refs, h'.endings.trans h.endings,
    h'.releases.trans h.releases, h'.stream.trans h.stream, h'.sent.trans h.sent⟩

/-- A change that keeps what the placement of `r` looks at. -/
structure Frames (c c' : Connection) (r : Nat) : Prop where
  callback : Alike (c.callbacks r) (c'.callbacks r)
  inWrites : InWrites c' r ↔ InWrites c r
  inQueuedWrite : InQueuedWrite c' r ↔ InQueuedWrite c r
  inReads : r ∈ c'.pendingReads ↔ r ∈ c.pendingReads
  lookup : ∀ s, c'.streamManager.pending.lookup s = some r ↔
    c.streamManager.pending.lookup s = some r
  isClosing : c.isClosing = true → c'.isClosing = true

namespace Frames

variable {c c' c'' : Connection} {r : Nat}

lemma refl (c : Connection) (r : Nat) : Frames c c r :=
  ⟨.of_eq rfl, .rfl, .rfl, .rfl, fun _ => .rfl, id⟩

lemma trans (h : Frames c c' r) (h' : Frames c' c'' r) : Frames c c'' r :=
  ⟨h.callback.trans h'.callback, h'.inWrites.trans h.inWrites,
    h'.inQueuedWrite.trans h.inQueuedWrite, h'.inReads.trans h.inReads,
    fun s => (h'.lookup s).trans (h.lookup s), h'.isClosing ∘ h.isClosing⟩

lemma holdsStream (h : Frames c c' r) : HoldsStream c' r ↔ HoldsStream c r := by
  simp only [HoldsStream, h.lookup, h.callback.stream]

lemma holdsNone (h : Frames c c' r) : HoldsNone c' r ↔ HoldsNone c r := by
  simp only [HoldsNone, Ne, h.lookup]

end Frames

section Frame

variable {c c' : Connection} {r : Nat} (hf : Frames c c' r)
include hf

lemma WritingPlaced.frame (h : WritingPlaced c r) : WritingPlaced c' r :=
  ⟨hf.callback.refs ▸ h.refs, hf.callback.endings ▸ h.endings,
    hf.callback.releases ▸ h.releases, hf.inWrites.mpr h.inWrites, hf.holdsStream.mpr h.holds,
    by rw [hf.callback.sent, hf.inQueuedWrite]; exact h.sent_iff⟩

lemma ReadBeforeWritePlaced.frame (h : ReadBeforeWritePlaced c r) : ReadBeforeWritePlaced c' r :=
  ⟨hf.callback.refs ▸ h.refs, hf.callback.endings ▸ h.endings,
    hf.callback.releases ▸ h.releases, hf.inQueuedWrite.mpr h.queued,
    hf.holdsNone.mpr h.holdsNone, hf.callback.sent ▸ h.sent⟩

lemma ReadingPlaced.frame (h : ReadingPlaced c r) : ReadingPlaced c' r :=
  ⟨hf.callback.refs ▸ h.refs, hf.callback.endings ▸ h.endings,
    hf.callback.releases ▸ h.releases, hf.inReads.mpr h.inReads, hf.holdsStream.mpr h.holds,
    hf.callback.sent ▸ h.sent⟩

lemma DonePlaced.frame (h : DonePlaced c r) : DonePlaced c' r :=
  ⟨mt hf.inWrites.mp h.notInWrites, mt hf.inReads.mp h.notInReads, hf.holdsNone.mpr h.holdsNone,
    fun hs => hf.isClosing (h.sent (hf.callback.sent ▸ hs)),
    by rw [hf.callback.refs, hf.callback.endings, hf.callback.releases]; exact h.ended⟩

lemma Placed.frame (h : Placed c r) : Placed c' r := by
  unfold Placed at h ⊢
  rw [hf.callback.stage]
  -- the four placements, each carried by its own frame lemma
  split at h
  · exact WritingPlaced.frame hf h
  · exact ReadBeforeWritePlaced.frame hf h
  · exact ReadingPlaced.frame hf h
  · exact DonePlaced.frame hf h

end Frame

/-! ### The pending map of the stream manager -/

section Lookup

variable {m : AList (fun _ : Int => Nat)} {k s : Int} {r r' : Nat}

/-- Inserting a stream that was not pending for `r` leaves the lookups of the others alone. -/
lemma lookup_insert_eq_some_of_ne (hk : k ∉ m) (hne : r' ≠ r) :
    (m.insert k r).lookup s = some r' ↔ m.lookup s = some r' := by
  by_cases hs : s = k
  · subst hs
    rw [AList.lookup_insert, AList.lookup_eq_none.mpr hk]
    simp [Ne.symm hne]
  · rw [AList.lookup_insert_ne hs]

/-- Erasing the stream of `r` leaves the lookups of the others alone. -/
lemma lookup_erase_eq_some_of_ne (hk : m.lookup k = some r) (hne : r' ≠ r) :
    (m.erase k).lookup s = some r' ↔ m.lookup s = some r' := by
  by_cases hs : s = k
  · subst hs
    rw [AList.lookup_erase, hk]
    simp [Ne.symm hne]
  · rw [AList.lookup_erase_ne hs]

/-- A request holding no stream holds exactly the one inserted for it. -/
lemma lookup_insert_eq_some_iff (hnone : ∀ s, m.lookup s ≠ some r) :
    (m.insert k r).lookup s = some r ↔ s = k := by
  by_cases hs : s = k
  · subst hs
    simp
  · rw [AList.lookup_insert_ne hs]
    exact ⟨fun h => absurd h (hnone s), fun h => absurd h hs⟩

/-- A request holding exactly one stream holds none once it is erased. -/
lemma lookup_erase_ne_some (hholds : ∀ s, m.lookup s = some r ↔ s = k) :
    (m.erase k).lookup s ≠ some r := by
  by_cases hs : s = k
  · subst hs
    simp
  · rw [AList.lookup_erase_ne hs]
    exact fun h => hs ((hholds s).mp h)

end Lookup

/-! ### What the handlers keep -/

section Helpers

variable {c : Connection} {r r' : Nat}

lemma InQueuedWrite.inWrites (h : InQueuedWrite c r) : InWrites c r := by
  obtain ⟨pw, hpw, -, hr⟩ := h
  exact List.mem_append_left _ (List.mem_flatMap.mpr ⟨pw, hpw, hr⟩)

/-- A change that leaves the request `r` alone. -/
structure Leaves (c c' : Connection) (r : Nat) : Prop where
  callbacks : c'.callbacks r = c.callbacks r
  frames : Frames c c' r

lemma Leaves.trans {c' c'' : Connection} (h : Leaves c c' r) (h' : Leaves c' c'' r) :
    Leaves c c'' r :=
  ⟨h'.callbacks.trans h.callbacks, h.frames.trans h'.frames⟩

/-- Only the lists, the stream manager, the flags and the count of failures changed. -/
lemma Leaves.of_callbacks {c' : Connection} (hcb : c'.callbacks = c.callbacks)
    (hw : InWrites c' r' ↔ InWrites c r') (hq : InQueuedWrite c' r' ↔ InQueuedWrite c r')
    (hr : r' ∈ c'.pendingReads ↔ r' ∈ c.pendingReads)
    (hl : ∀ s, c'.streamManager.pending.lookup s = some r' ↔
      c.streamManager.pending.lookup s = some r')
    (hc : c.isClosing = true → c'.isClosing = true) : Leaves c c' r' :=
  ⟨congrFun hcb r', ⟨.of_eq (congrFun hcb r'), hw, hq, hr, hl, hc⟩⟩

lemma leaves_modify (f : Callback → Callback) (hne : r' ≠ r) : Leaves c (c.modify r f) r' :=
  ⟨modify_callbacks_of_ne _ _ _ hne,
    ⟨.of_eq (modify_callbacks_of_ne _ _ _ hne), .rfl, .rfl, .rfl, fun _ => .rfl, id⟩⟩

lemma leaves_fail (r' : Nat) : Leaves c c.fail r' :=
  .of_callbacks rfl .rfl .rfl .rfl (fun _ => .rfl) id

lemma leaves_defunct (r' : Nat) : Leaves c c.defunct r' :=
  .of_callbacks rfl .rfl .rfl .rfl (fun _ => .rfl) fun _ => rfl

lemma leaves_setRequestState (next : State) (hne : r' ≠ r) :
    Leaves c (c.setRequestState r next) r' := by
  unfold setRequestState
  split
  · exact leaves_modify _ hne
  · exact leaves_fail r'

lemma leaves_notify (e : Ending) (hne : r' ≠ r) : Leaves c (c.notify r e) r' :=
  leaves_modify _ hne

lemma leaves_decRef (hne : r' ≠ r) : Leaves c (c.decRef r) r' :=
  leaves_modify _ hne

lemma leaves_addRead (hne : r' ≠ r) : Leaves c (c.addRead r) r' :=
  .of_callbacks rfl .rfl .rfl (by simp [addRead, hne]) (fun _ => .rfl) id

lemma leaves_removeRead (hne : r' ≠ r) : Leaves c (c.removeRead r) r' :=
  .of_callbacks rfl .rfl .rfl (List.mem_erase_of_ne hne) (fun _ => .rfl) id

lemma Counted.sent {cb : Callback} (h : Counted cb) (b : Bool) : Counted { cb with sent := b } :=
  ⟨h.refs_le, h.drops_eq, h.endings_le, h.releases_le, h.untouched,
    h.cancelRequested_of_isCancelled, h.cancelRequested_of_cancel⟩

/-- `setState` at the transitions the handlers make. -/
lemma setRequestState_of_setState {next s : State} (h : setState (c.callbacks r).state next = some s) :
    c.setRequestState r next = c.modify r fun cb => { cb with state := s } := by
  rw [setRequestState, h]

/-- Releasing the stream of `r` leaves every other request alone. -/
lemma leaves_release {sm : StreamManager Nat} {s : Int} (f : Callback → Callback)
    (hlookup : c.streamManager.pending.lookup s = some r)
    (hpending : sm.pending = c.streamManager.pending.erase s) (hne : r' ≠ r) :
    Leaves c { c.modify r f with streamManager := sm } r' :=
  ⟨modify_callbacks_of_ne _ _ _ hne, ⟨.of_eq (modify_callbacks_of_ne _ _ _ hne), .rfl, .rfl, .rfl,
    fun _ => by rw [hpending]; exact lookup_erase_eq_some_of_ne hlookup hne, id⟩⟩

/-- Taking a stream for `r` leaves every other request alone. -/
lemma leaves_acquire {sm : StreamManager Nat} {k : Int} (f : Callback → Callback)
    (hk : k ∉ c.streamManager.pending) (hpending : sm.pending = c.streamManager.pending.insert k r)
    (hne : r' ≠ r) :
    Leaves c { c.modify r f with streamManager := sm, unflushed := some (c.unflushed.getD []) } r' :=
  ⟨modify_callbacks_of_ne _ _ _ hne, ⟨.of_eq (modify_callbacks_of_ne _ _ _ hne),
    by simp [InWrites, writeCallbacks], .rfl, .rfl,
    fun _ => by rw [hpending]; exact lookup_insert_eq_some_of_ne hk hne, id⟩⟩

/-- `release` of the stream a request holds succeeds. (The stream is named apart: the key of
`AList.lookup` is a dependent argument, which `simp` does not rewrite.) -/
lemma releaseStream_of_lookup {s : Int} (hsm : StreamManager.Inv c.streamManager)
    (hs : (c.callbacks r).stream = s) (hlookup : c.streamManager.pending.lookup s = some r) :
    ∃ sm, StreamManager.Inv sm ∧ sm.pending = c.streamManager.pending.erase s ∧
      c.releaseStream r =
        { c.modify r (fun cb => { cb with releases := cb.releases + 1 }) with streamManager := sm } := by
  have hk : s ∈ c.streamManager.pending := AList.lookup_isSome.1 (by simp [hlookup])
  obtain ⟨sm, hrelease, hsm', hpending, -⟩ := (hsm.release _).1 hk
  exact ⟨sm, hsm', hpending, by rw [releaseStream, hs, hrelease]⟩

@[simp] lemma setRequestState_isClosed (next : State) :
    (c.setRequestState r next).isClosed = c.isClosed := by
  unfold setRequestState
  split <;> rfl

@[simp] lemma setRequestState_isClosing (next : State) :
    (c.setRequestState r next).isClosing = c.isClosing := by
  unfold setRequestState
  split <;> rfl

@[simp] lemma setRequestState_flushedWrites (next : State) :
    (c.setRequestState r next).flushedWrites = c.flushedWrites := by
  unfold setRequestState
  split <;> rfl

@[simp] lemma releaseStream_isClosed : (c.releaseStream r).isClosed = c.isClosed := by
  unfold releaseStream
  split <;> rfl

@[simp] lemma releaseStream_isClosing : (c.releaseStream r).isClosing = c.isClosing := by
  unfold releaseStream
  split <;> rfl

@[simp] lemma releaseStream_flushedWrites : (c.releaseStream r).flushedWrites = c.flushedWrites := by
  unfold releaseStream
  split <;> rfl

section OnWriteCallback

variable (ok : Bool) (c : Connection) (r : Nat)

@[simp] lemma onWriteCallback_flushedWrites :
    (onWriteCallback ok c r).flushedWrites = c.flushedWrites := by
  unfold onWriteCallback
  split
  · cases ok
    · cases c.isClosing <;> simp [notify, decRef, defunct]
    · simp [addRead]
  all_goals simp [notify, decRef, addRead, fail]

@[simp] lemma onWriteCallback_isClosed : (onWriteCallback ok c r).isClosed = c.isClosed := by
  unfold onWriteCallback
  split
  · cases ok
    · cases c.isClosing <;> simp [notify, decRef, defunct]
    · simp [addRead]
  all_goals simp [notify, decRef, addRead, fail]

/-- Only a failed write closes the socket. -/
lemma onWriteCallback_isClosing (h : (onWriteCallback ok c r).isClosing = true) :
    c.isClosing = true ∨ ok = false := by
  cases ok
  · exact Or.inr rfl
  · left
    unfold onWriteCallback at h
    split at h <;> simpa [notify, decRef, addRead, fail] using h

end OnWriteCallback

/-- The writes, once the request at the front of the oldest one is taken out. -/
lemma writeCallbacks_takeWrite {todo : List Nat} {q : Bool} {rest : List FlushedWrite}
    (hfw : c.flushedWrites = ⟨r :: todo, q⟩ :: rest) :
    c.writeCallbacks = r :: { c with flushedWrites := ⟨todo, q⟩ :: rest }.writeCallbacks := by
  simp [writeCallbacks, hfw]

/-- Taking the request `r` out of the front of the oldest write leaves every other request
alone. -/
lemma leaves_takeWrite {todo : List Nat} {q : Bool} {rest : List FlushedWrite}
    (hfw : c.flushedWrites = ⟨r :: todo, q⟩ :: rest) (hne : r' ≠ r) :
    Leaves c { c with flushedWrites := ⟨todo, q⟩ :: rest } r' :=
  .of_callbacks rfl (by simp [InWrites, writeCallbacks, hfw, hne])
    (by simp [InQueuedWrite, hfw, hne]) .rfl (fun _ => .rfl) id

/-- Setting the state, notifying and dropping the reference, when the assertion holds. -/
lemma setRequestState_notify_decRef {next s : State} (e : Ending)
    (h : setState (c.callbacks r).state next = some s) :
    ((c.setRequestState r next).notify r e).decRef r =
      c.modify r fun cb => { cb with state := s, endings := cb.endings ++ [e], drops := cb.drops + 1 } := by
  rw [setRequestState_of_setState h, notify, decRef, modify_modify, modify_modify]
  rfl

end Helpers

section Facts

variable {c : Connection} {r : Nat}

lemma Inv.isClosed_of_isClosing (h : Inv c) (hclosing : c.isClosing = false) :
    c.isClosed = false := by
  cases hc : c.isClosed
  · rfl
  · exact absurd (h.closed hc).1 (by rw [hclosing]; decide)

lemma Inv.not_inReads_of_inWrites (h : Inv c) (hw : InWrites c r) : r ∉ c.pendingReads :=
  fun hr => List.disjoint_of_nodup_append h.nodup hr hw

/-- The server holds only requests whose stream is pending for them. -/
lemma Placed.holdsStream_of_sent (hp : Placed c r) (hclosing : c.isClosing = false)
    (hsent : (c.callbacks r).sent = true) : HoldsStream c r := by
  unfold Placed at hp
  split at hp
  · exact hp.holds
  · exact absurd (hp.sent ▸ hsent) Bool.false_ne_true
  · exact hp.holds
  · exact absurd (hp.sent hsent) (by rw [hclosing]; decide)

/-- A request of the last, unflushed write is in no flushed one. -/
lemma Inv.not_inQueuedWrite_of_unflushed (h : Inv c) {l : List Nat} (hu : c.unflushed = some l)
    (hr : r ∈ l) : ¬InQueuedWrite c r := by
  rintro ⟨pw, hpw, -, hr'⟩
  have hwrites : (c.flushedWrites.flatMap FlushedWrite.callbacks ++ l).Nodup := by
    simpa [writeCallbacks, hu] using h.nodup.of_append_right
  exact List.disjoint_of_nodup_append hwrites (List.mem_flatMap.mpr ⟨pw, hpw, hr'⟩) hr

/-- A request of the last, unflushed write is being written. -/
lemma Inv.writingPlaced_of_unflushed (h : Inv c) (hopen : c.isClosed = false) {l : List Nat}
    (hu : c.unflushed = some l) (hr : r ∈ l) :
    (c.callbacks r).state.stage = .writing ∧ WritingPlaced c r := by
  have hw : InWrites c r := List.mem_append_right _ (by simpa [hu] using hr)
  have hp := h.placed hopen r
  unfold Placed at hp
  split at hp
  · next hstage => exact ⟨hstage, hp⟩
  · exact absurd hp.queued (h.not_inQueuedWrite_of_unflushed hu hr)
  · exact absurd hp.inReads (h.not_inReads_of_inWrites hw)
  · exact absurd hw hp.notInWrites

end Facts

/-! ### One callback at a time -/

/-- A callback the connection holds, whose counts are within bounds. -/
lemma Counted.of_taken {cb : Callback} (hrefs : cb.refs = 1) (hdrops : cb.drops = cb.endings.length)
    (hend : cb.endings.length ≤ 1) (hrel : cb.releases ≤ 1)
    (hcancelled : cb.state.IsCancelled → cb.cancelRequested = true)
    (hcancel : Ending.cancel ∈ cb.endings → cb.cancelRequested = true) : Counted cb :=
  ⟨hrefs.le, hdrops, hrefs ▸ hend, hrefs ▸ hrel, fun h0 => absurd (hrefs.symm.trans h0) one_ne_zero,
    hcancelled, hcancel⟩

/-- A change of the callback `r` alone that the placement cannot tell. -/
lemma frames_modify_self {c : Connection} {r : Nat} {f : Callback → Callback}
    (h : Alike (c.callbacks r) (f (c.callbacks r))) : Frames c (c.modify r f) r :=
  ⟨by rw [modify_callbacks_self]; exact h, .rfl, .rfl, .rfl, fun _ => .rfl, id⟩

/-- The invariant after a handler that changes the callback `r`, and leaves every other request
alone. -/
lemma Inv.of_leaves {c c' : Connection} (r : Nat) (h : Inv c)
    (hstreams : StreamManager.Inv c'.streamManager)
    (hnodup : (c'.pendingReads ++ c'.writeCallbacks).Nodup) (hfailures : c'.failures = 0)
    (hisClosed : c'.isClosed = c.isClosed) (hisClosing : c.isClosing = true → c'.isClosing = true)
    (hcounted : Counted (c'.callbacks r)) (hplaced : c.isClosed = false → Placed c' r)
    (hended : c.isClosed = true → (c'.callbacks r).endings.length = (c'.callbacks r).refs)
    (hleaves : ∀ r', r' ≠ r → Leaves c c' r') : Inv c' where
  streams := hstreams
  nodup := hnodup
  failures := hfailures
  counted r' := by
    by_cases hr : r' = r
    · exact hr ▸ hcounted
    · rw [(hleaves r' hr).callbacks]
      exact h.counted r'
  placed hopen r' := by
    rw [hisClosed] at hopen
    by_cases hr : r' = r
    · exact hr ▸ hplaced hopen
    · exact Placed.frame (hleaves r' hr).frames (h.placed hopen r')
  closed hc := by
    rw [hisClosed] at hc
    refine ⟨hisClosing (h.closed hc).1, fun r' => ?_⟩
    by_cases hr : r' = r
    · exact hr ▸ hended hc
    · rw [(hleaves r' hr).callbacks]
      exact (h.closed hc).2 r'

/-- The invariant after a change that leaves every request alone. -/
lemma Inv.of_leaves_all {c c' : Connection} (h : Inv c)
    (hstreams : StreamManager.Inv c'.streamManager)
    (hnodup : (c'.pendingReads ++ c'.writeCallbacks).Nodup) (hfailures : c'.failures = 0)
    (hisClosed : c'.isClosed = c.isClosed) (hisClosing : c.isClosing = true → c'.isClosing = true)
    (hleaves : ∀ r, Leaves c c' r) : Inv c' :=
  h.of_leaves 0 hstreams hnodup hfailures hisClosed hisClosing
    (by rw [(hleaves 0).callbacks]; exact h.counted 0)
    (fun hopen => Placed.frame (hleaves 0).frames (h.placed hopen 0))
    (fun hc => by rw [(hleaves 0).callbacks]; exact (h.closed hc).2 0) fun r _ => hleaves r

/-! ### The events -/

section Events

variable {c : Connection} {r : Nat}

/-- `defunct` only marks the socket closing. -/
theorem Inv.defunct (h : Inv c) : Inv c.defunct where
  streams := h.streams
  nodup := h.nodup
  failures := h.failures
  counted := h.counted
  placed hopen r := Placed.frame (leaves_defunct r).frames (h.placed hopen r)
  closed hc := ⟨rfl, (h.closed hc).2⟩

/-- A cancellation moves the request to the cancelled state of its stage. -/
theorem Inv.cancel (h : Inv c) (hnc : ¬(c.callbacks r).state.IsCancelled) : Inv (c.cancel r) := by
  obtain ⟨s', hset, hcancelled, hstage⟩ := setState_cancelled hnc
  have hcancel : c.cancel r = c.modify r fun cb => { cb with cancelRequested := true, state := s' } := by
    rw [Connection.cancel, setRequestState_of_setState (by simpa using hset), modify_modify]
    rfl
  have hcounted := h.counted r
  rw [hcancel]
  refine h.of_leaves r h.streams h.nodup h.failures rfl id ?_ ?_ ?_ fun r' hr => leaves_modify _ hr
  · -- only a new callback is cancelled untouched, and it is then `CANCELLED`
    rw [modify_callbacks_self]
    refine ⟨hcounted.refs_le, hcounted.drops_eq, hcounted.endings_le, hcounted.releases_le,
      fun h0 => ?_, fun _ => rfl, fun _ => rfl⟩
    have hnew : (c.callbacks r).state = .new := (hcounted.untouched h0).resolve_right
      fun hc => hnc (hc ▸ trivial)
    rw [hnew] at hstage
    exact Or.inr (State.eq_cancelled hcancelled hstage)
  · exact fun hopen => Placed.frame (frames_modify_self ⟨hstage, rfl, rfl, rfl, rfl, rfl⟩)
      (h.placed hopen r)
  · intro hc
    simpa using (h.closed hc).2 r

/-- A response for a request being read ends it: `FINISHED` with `on_set`, or `CANCELLED` with
`on_cancel`. -/
lemma Inv.consume_reading (h : Inv c) (hopen : c.isClosed = false) (hp : ReadingPlaced c r)
    {s : Int} (hlookup : c.streamManager.pending.lookup s = some r) {sm : StreamManager Nat}
    (hsm : StreamManager.Inv sm) (hpending : sm.pending = c.streamManager.pending.erase s)
    {next final : State} {e : Ending} (hset : setState (c.callbacks r).state next = some final)
    (hfinal : final.stage = .done) (hcancelled : final.IsCancelled → (c.callbacks r).state.IsCancelled)
    (hcancel : e = .cancel → (c.callbacks r).state.IsCancelled) :
    Inv (((({ c.modify r (fun cb => { cb with releases := cb.releases + 1, sent := false }) with
      streamManager := sm }.removeRead r).setRequestState r next).notify r e).decRef r) := by
  have hcounted := h.counted r
  have hstream : s = (c.callbacks r).stream := (hp.holds s).mp hlookup
  have hreads : c.pendingReads.Nodup := h.nodup.of_append_left
  rw [setRequestState_notify_decRef e (by simpa [removeRead] using hset)]
  refine h.of_leaves r hsm ?_ h.failures rfl id ?_ (fun _ => ?_) (fun hc => absurd hc (by simp [hopen]))
    fun r' hr => ((leaves_release _ hlookup hpending hr).trans (leaves_removeRead hr)).trans
      (leaves_modify _ hr)
  · exact h.nodup.sublist (List.erase_sublist.append (List.Sublist.refl _))
  · simp only [modify_callbacks_self, removeRead]
    refine Counted.of_taken hp.refs ?_ (by simp [hp.endings]) (by simp [hp.releases])
      (fun hc => hcounted.cancelRequested_of_isCancelled (hcancelled hc)) fun hc => ?_
    · simp [hcounted.drops_eq, hp.endings]
    · rw [hp.endings, List.nil_append, List.mem_singleton] at hc
      exact hcounted.cancelRequested_of_isCancelled (hcancel hc.symm)
  · -- out of `pending_reads_`, with its stream released and its ending given
    simp only [Placed, modify_callbacks_self, removeRead, hfinal]
    refine ⟨fun hw => h.not_inReads_of_inWrites hw hp.inReads, ?_, fun s' => ?_, fun hs => ?_, ?_⟩
    · simp [hreads.mem_erase_iff]
    · simp only [modify_streamManager, hpending, hstream]
      exact lookup_erase_ne_some (fun s' => hp.holds s')
    · simp at hs
    · simp [hp.endings, hp.releases]

/-- A response for a request still being written is kept for its write's completion:
`READ_BEFORE_WRITE`, or `CANCELLED_READ_BEFORE_WRITE`. -/
lemma Inv.consume_writing (h : Inv c) (hopen : c.isClosed = false) (hp : WritingPlaced c r)
    (hsent : (c.callbacks r).sent = true)
    {s : Int} (hlookup : c.streamManager.pending.lookup s = some r) {sm : StreamManager Nat}
    (hsm : StreamManager.Inv sm) (hpending : sm.pending = c.streamManager.pending.erase s)
    {next final : State} (hset : setState (c.callbacks r).state next = some final)
    (hfinal : final.stage = .readBeforeWrite)
    (hcancelled : final.IsCancelled → (c.callbacks r).state.IsCancelled) :
    Inv ({ c.modify r (fun cb => { cb with releases := cb.releases + 1, sent := false }) with
      streamManager := sm }.setRequestState r next) := by
  have hcounted := h.counted r
  have hstream : s = (c.callbacks r).stream := (hp.holds s).mp hlookup
  rw [setRequestState_of_setState (by simpa using hset)]
  refine h.of_leaves r hsm h.nodup h.failures rfl id ?_ (fun _ => ?_)
    (fun hc => absurd hc (by simp [hopen]))
    fun r' hr => (leaves_release _ hlookup hpending hr).trans (leaves_modify _ hr)
  · simp only [modify_callbacks_self]
    exact Counted.of_taken hp.refs (by simp [hcounted.drops_eq]) (by simp [hp.endings])
      (by simp [hp.releases]) (fun hc => hcounted.cancelRequested_of_isCancelled (hcancelled hc))
      (by simp [hp.endings])
  · -- its stream released, the request waits in its queued write
    simp only [Placed, modify_callbacks_self, hfinal]
    refine ⟨by simpa using hp.refs, by simpa using hp.endings, by simp [hp.releases],
      hp.sent_iff.mp hsent, fun s' => ?_, by simp⟩
    simp only [modify_streamManager, hpending, hstream]
    exact lookup_erase_ne_some (fun s' => hp.holds s')

/-- `flush` hands the last write to `uv_write`: its requests are held by the server, unless the
socket is closing and the write is not queued. -/
theorem Inv.flush (h : Inv c) (hopen : c.isClosed = false) : Inv c.flush := by
  unfold Connection.flush
  split
  · next r₀ rs hu =>
    have hnodup : ((c.pendingReads ++ c.flushedWrites.flatMap FlushedWrite.callbacks ++
        (r₀ :: rs)) ++ []).Nodup := by
      simpa [writeCallbacks, hu] using h.nodup
    refine ⟨h.streams, by simpa [writeCallbacks] using hnodup, h.failures, fun r => ?_,
      fun _ r => ?_, fun hc => absurd hc (by simp [hopen])⟩
    · dsimp only
      split
      · exact (h.counted r).sent true
      · exact h.counted r
    · by_cases hr : r ∈ r₀ :: rs
      · -- a request of the flushed write: still being written, now queued unless closing
        obtain ⟨hstage, hp⟩ := h.writingPlaced_of_unflushed hopen hu hr
        have hq : ¬InQueuedWrite c r := h.not_inQueuedWrite_of_unflushed hu hr
        unfold Placed
        cases hclosing : c.isClosing
        · simp only [hr, hstage, Bool.not_false, and_self, if_true]
          refine ⟨by simp [hr, hp.refs], by simp [hr, hp.endings], by simp [hr, hp.releases],
            by simp [InWrites, writeCallbacks, hr], fun s => by simpa [hr] using hp.holds s, ?_⟩
          simp only [hr, and_self, if_true, true_iff]
          exact ⟨⟨r₀ :: rs, true⟩, by simp, rfl, hr⟩
        · simp only [hr, hstage, Bool.not_true, Bool.false_eq_true, and_false, if_false]
          refine ⟨hp.refs, hp.endings, hp.releases, by simp [InWrites, writeCallbacks, hr],
            hp.holds, ?_⟩
          rw [hp.sent_iff, iff_false_intro hq, false_iff]
          rintro ⟨pw, hpw, hq', hr'⟩
          simp only [List.mem_append, List.mem_singleton] at hpw
          rcases hpw with hpw | rfl
          · exact hq ⟨pw, hpw, hq', hr'⟩
          · exact Bool.false_ne_true hq'
      · -- any other request is left alone
        have hl : Leaves c { c with
            callbacks := fun r' => if r' ∈ r₀ :: rs ∧ !c.isClosing then
              { c.callbacks r' with sent := true } else c.callbacks r'
            flushedWrites := c.flushedWrites ++ [⟨r₀ :: rs, !c.isClosing⟩]
            unflushed := none } r := by
          refine ⟨by simp [hr], ⟨.of_eq (by simp [hr]), ?_, ?_, .rfl, fun _ => .rfl, id⟩⟩
          · simp [InWrites, writeCallbacks, hu, hr]
          · simp [InQueuedWrite, hr]
        exact Placed.frame hl.frames (h.placed hopen r)
  · exact h

section Write

variable (h : Inv c) (hclosing : c.isClosing = false) (hrefs : (c.callbacks r).refs = 0)
  (hnew : (c.callbacks r).state = .new) {k : Int} {sm : StreamManager Nat}
  (hsm : StreamManager.Inv sm) (hk : k ∉ c.streamManager.pending)
  (hpending : sm.pending = c.streamManager.pending.insert k r)
include h hclosing hrefs hnew hsm hk hpending

/-- A new request, with a stream taken for it and encoded into the last write, is being
written. -/
lemma Inv.write_encoded :
    Inv ({ { c.modify r (fun cb => { cb with refs := cb.refs + 1, stream := k }) with
      streamManager := sm, unflushed := some (c.unflushed.getD []) } with
      unflushed := some (c.unflushed.getD [] ++ [r]) }.setRequestState r .writing) := by
  have hopen := h.isClosed_of_isClosing hclosing
  have hcounted := h.counted r
  have hp : DonePlaced c r := by simpa [Placed, hnew, State.stage] using h.placed hopen r
  have hend : (c.callbacks r).endings = [] := List.eq_nil_of_length_eq_zero
    (Nat.le_zero.mp (hrefs ▸ hcounted.endings_le))
  have hsent : (c.callbacks r).sent = false :=
    Bool.eq_false_iff.mpr fun hs => absurd (hp.sent hs) (by rw [hclosing]; decide)
  rw [setRequestState_of_setState (by simp [hnew]; rfl)]
  refine h.of_leaves r hsm ?_ h.failures rfl id ?_ (fun _ => ?_)
    (fun hc => absurd hc (by simp [hopen])) fun r' hr => ?_
  · -- the request joins the writes, where it was not
    have hnodup := h.nodup.concat (a := r)
      (by rw [List.mem_append]; exact not_or.mpr ⟨hp.notInReads, hp.notInWrites⟩)
    simpa [writeCallbacks] using hnodup
  · simp only [modify_callbacks_self]
    exact Counted.of_taken (by simp [hrefs]) (by simp [hcounted.drops_eq]) (by simp [hend])
      (by simp [Nat.le_zero.mp (hrefs ▸ hcounted.releases_le)]) (by rintro ⟨⟩) (by simp [hend])
  · simp only [Placed, modify_callbacks_self, State.stage]
    refine ⟨by simp [hrefs], by simp [hend], by simp [Nat.le_zero.mp (hrefs ▸ hcounted.releases_le)],
      by simp [InWrites, writeCallbacks], fun s => ?_, ?_⟩
    · simp only [modify_streamManager, hpending, modify_callbacks_self]
      exact lookup_insert_eq_some_iff hp.holdsNone
    · -- not sent, and in no flushed write
      simp only [modify_callbacks_self, hsent, Bool.false_eq_true, false_iff]
      exact fun hq => hp.notInWrites (InQueuedWrite.inWrites (c := c) hq)
  · refine ((leaves_acquire (fun cb => { cb with refs := cb.refs + 1, stream := k }) hk hpending
      hr).trans ?_).trans (leaves_modify _ hr)
    exact .of_callbacks rfl (by simp [InWrites, writeCallbacks, hr]) .rfl .rfl (fun _ => .rfl) id

/-- A new request that does not encode gives its stream back and hears `on_error`. -/
lemma Inv.write_unencoded :
    Inv ((({ c.modify r (fun cb => { cb with refs := cb.refs + 1, stream := k }) with
      streamManager := sm, unflushed := some (c.unflushed.getD []) }.releaseStream r).notify r
        .error).decRef r) := by
  have hopen := h.isClosed_of_isClosing hclosing
  have hcounted := h.counted r
  have hp : DonePlaced c r := by simpa [Placed, hnew, State.stage] using h.placed hopen r
  have hend : (c.callbacks r).endings = [] := List.eq_nil_of_length_eq_zero
    (Nat.le_zero.mp (hrefs ▸ hcounted.endings_le))
  have hreleases : (c.callbacks r).releases = 0 := Nat.le_zero.mp (hrefs ▸ hcounted.releases_le)
  obtain ⟨sm', hsm', hpending', hrelease⟩ := releaseStream_of_lookup
    (c := { c.modify r (fun cb => { cb with refs := cb.refs + 1, stream := k }) with
      streamManager := sm, unflushed := some (c.unflushed.getD []) }) (r := r) (s := k) hsm
    (by simp) (by simp [hpending])
  rw [hrelease, notify, decRef, modify_modify]
  refine h.of_leaves r hsm' (by simpa [writeCallbacks] using h.nodup) h.failures rfl id ?_
    (fun _ => ?_) (fun hc => absurd hc (by simp [hopen])) fun r' hr => ?_
  · simp only [modify_callbacks_self]
    exact Counted.of_taken (by simp [hrefs]) (by simp [hcounted.drops_eq, hend]) (by simp [hend])
      (by simp [hreleases]) (by simp [hnew, State.IsCancelled]) (by simp [hend])
  · -- back to no list and no stream, with its ending given
    simp only [Placed, modify_callbacks_self, Function.comp, hnew, State.stage]
    refine ⟨by simpa [InWrites, writeCallbacks] using hp.notInWrites, hp.notInReads, fun s => ?_,
      fun hs => ?_, by simp [hrefs, hend, hreleases]⟩
    · simp only [modify_streamManager, hpending', hpending]
      exact lookup_erase_ne_some fun s => lookup_insert_eq_some_iff hp.holdsNone
    · exact hp.sent (by simpa using hs)
  · exact ((leaves_acquire (fun cb => { cb with refs := cb.refs + 1, stream := k }) hk hpending
      hr).trans (leaves_release _ (by simp [hpending]) hpending' hr)).trans
      (leaves_modify _ hr)

end Write

/-- `internal_write` of a request the connection does not hold: a cancelled request is left
alone, and a request without a stream is not written. -/
theorem Inv.internalWrite (h : Inv c) (hclosing : c.isClosing = false)
    (hrefs : (c.callbacks r).refs = 0) (encodes flushImmediately : Bool) :
    Inv (c.internalWrite r encodes flushImmediately) := by
  unfold Connection.internalWrite
  by_cases hcancelled : (c.callbacks r).state = .cancelled
  · rw [if_pos hcancelled]
    exact h
  rw [if_neg hcancelled]
  have hnew : (c.callbacks r).state = .new :=
    ((h.counted r).untouched hrefs).resolve_right hcancelled
  obtain ⟨hsm, -, hacquire⟩ := h.streams.acquire r
  dsimp only
  rcases hacquire with ⟨hk0, -, hk, hpending⟩ | ⟨hneg, -, hpending⟩
  · rw [if_neg (not_lt.mpr hk0)]
    cases encodes
    · exact Inv.write_unencoded h hclosing hrefs hnew hsm hk hpending
    · have hwritten := Inv.write_encoded h hclosing hrefs hnew hsm hk hpending
      cases flushImmediately
      · exact hwritten
      · exact hwritten.flush (by simp [h.isClosed_of_isClosing hclosing])
  · -- `REQUEST_ERROR_NO_AVAILABLE_STREAM_IDS`: only the scan's offset moved
    rw [if_pos (by rw [hneg]; decide)]
    exact h.of_leaves_all hsm h.nodup h.failures rfl id fun r' =>
      .of_callbacks rfl .rfl .rfl .rfl (fun _ => by rw [hpending]) id

section WriteDone

variable (h : Inv c) (hopen : c.isClosed = false) {todo : List Nat} {rest : List FlushedWrite}
  (hfw : c.flushedWrites = ⟨r :: todo, true⟩ :: rest)
include h hopen hfw

/-- A request whose write completed, and whose response did not come yet, is being read:
`READING`, or `CANCELLED_READING`. -/
lemma Inv.writeDone_reading (hp : WritingPlaced c r) {next final : State}
    (hset : setState (c.callbacks r).state next = some final) (hfinal : final.stage = .reading)
    (hcancelled : final.IsCancelled → (c.callbacks r).state.IsCancelled) :
    Inv (({ c with flushedWrites := ⟨todo, true⟩ :: rest }.setRequestState r next).addRead r) := by
  have hcounted := h.counted r
  have hq : InQueuedWrite c r := ⟨_, hfw ▸ List.mem_cons_self, rfl, List.mem_cons_self⟩
  have hnodup := h.nodup
  rw [writeCallbacks_takeWrite hfw, List.nodup_middle] at hnodup
  rw [setRequestState_of_setState (by simpa using hset)]
  refine h.of_leaves r h.streams ?_ h.failures rfl id ?_ (fun _ => ?_)
    (fun hc => absurd hc (by simp [hopen])) fun r' hr =>
      ((leaves_takeWrite hfw hr).trans (leaves_modify _ hr)).trans (leaves_addRead hr)
  · -- the request moves from its write to the back of `pending_reads_`
    simpa [addRead, writeCallbacks] using List.nodup_middle.mpr hnodup
  · simp only [addRead, modify_callbacks_self]
    exact Counted.of_taken hp.refs (by simp [hcounted.drops_eq]) (by simp [hp.endings])
      (by simp [hp.releases]) (fun hc => hcounted.cancelRequested_of_isCancelled (hcancelled hc))
      (by simp [hp.endings])
  · simp only [Placed, addRead, modify_callbacks_self, hfinal]
    exact ⟨by simpa using hp.refs, by simpa using hp.endings, by simpa using hp.releases,
      by simp, fun s => by simpa using hp.holds s, by simpa using hp.sent_iff.mpr hq⟩

/-- A request whose response came before its write completed ends: `FINISHED` with `on_set`, or
`CANCELLED` with `on_cancel`. -/
lemma Inv.writeDone_answered (hp : ReadBeforeWritePlaced c r) {next final : State} {e : Ending}
    (hset : setState (c.callbacks r).state next = some final) (hfinal : final.stage = .done)
    (hcancelled : final.IsCancelled → (c.callbacks r).state.IsCancelled)
    (hcancel : e = .cancel → (c.callbacks r).state.IsCancelled) :
    Inv ((({ c with flushedWrites := ⟨todo, true⟩ :: rest }.setRequestState r next).notify r
      e).decRef r) := by
  have hcounted := h.counted r
  have hnodup := h.nodup
  rw [writeCallbacks_takeWrite hfw, List.nodup_middle, List.nodup_cons] at hnodup
  rw [setRequestState_notify_decRef e (by simpa using hset)]
  refine h.of_leaves r h.streams hnodup.2 h.failures rfl id ?_ (fun _ => ?_)
    (fun hc => absurd hc (by simp [hopen])) fun r' hr =>
      (leaves_takeWrite hfw hr).trans (leaves_modify _ hr)
  · simp only [modify_callbacks_self]
    refine Counted.of_taken hp.refs (by simp [hcounted.drops_eq]) (by simp [hp.endings])
      (by simp [hp.releases]) (fun hc => hcounted.cancelRequested_of_isCancelled (hcancelled hc))
      fun hc => ?_
    rw [hp.endings, List.nil_append, List.mem_singleton] at hc
    exact hcounted.cancelRequested_of_isCancelled (hcancel hc.symm)
  · simp only [Placed, modify_callbacks_self, hfinal]
    refine ⟨fun hw => hnodup.1 (List.mem_append_right _ hw), fun hr => hnodup.1
      (List.mem_append_left _ hr), fun s => by simpa using hp.holdsNone s, fun hs => ?_, ?_⟩
    · simp [hp.sent] at hs
    · simp [hp.endings, hp.releases]

/-- A request whose write failed ends with `on_error`, its stream released; the connection is
closing, or closes now. -/
lemma Inv.writeDone_failed (hp : WritingPlaced c r) (hst : (c.callbacks r).state = .writing) :
    Inv (((({ c with flushedWrites := ⟨todo, true⟩ :: rest, isClosing := true }.releaseStream
      r).setRequestState r .finished).notify r .error).decRef r) := by
  have hcounted := h.counted r
  have hnodup := h.nodup
  rw [writeCallbacks_takeWrite hfw, List.nodup_middle, List.nodup_cons] at hnodup
  obtain ⟨sm, hsm, hpending, hrelease⟩ := releaseStream_of_lookup
    (c := { c with flushedWrites := ⟨todo, true⟩ :: rest, isClosing := true }) (r := r)
    (s := (c.callbacks r).stream) h.streams rfl ((hp.holds _).mpr rfl)
  have hclose : ∀ r', r' ≠ r →
      Leaves c { c with flushedWrites := ⟨todo, true⟩ :: rest, isClosing := true } r' :=
    fun r' hr => (leaves_takeWrite hfw hr).trans
      (.of_callbacks rfl .rfl .rfl .rfl (fun _ => .rfl) fun _ => rfl)
  rw [hrelease, setRequestState_notify_decRef .error (by simp [hst]; rfl)]
  refine h.of_leaves r hsm (by simpa [writeCallbacks] using hnodup.2) h.failures rfl
    (fun _ => rfl) ?_ (fun _ => ?_) (fun hc => absurd hc (by simp [hopen])) fun r' hr =>
      ((hclose r' hr).trans (leaves_release (fun cb => { cb with releases := cb.releases + 1 })
        ((hp.holds _).mpr rfl) hpending hr)).trans (leaves_modify _ hr)
  · simp only [modify_callbacks_self]
    exact Counted.of_taken hp.refs (by simp [hcounted.drops_eq]) (by simp [hp.endings])
      (by simp [hp.releases]) (by simp [State.IsCancelled]) (by simp [hp.endings])
  · simp only [Placed, modify_callbacks_self, State.stage]
    refine ⟨fun hw => hnodup.1 (List.mem_append_right _ (by simpa [InWrites, writeCallbacks]
      using hw)), fun hr => hnodup.1 (List.mem_append_left _ hr), fun s => ?_, fun _ => rfl, ?_⟩
    · simp only [modify_streamManager, hpending]
      exact lookup_erase_ne_some fun s => hp.holds s
    · simp [hp.endings, hp.releases]

/-- One turn of the loop of `on_write`: the request at the front of the oldest write, which is
being written or was answered already, is taken out and goes on by its state. -/
lemma Inv.onWriteCallback (ok : Bool) (hok : c.isClosing = true → ok = false) :
    Inv (onWriteCallback ok { c with flushedWrites := ⟨todo, true⟩ :: rest } r) := by
  have hq : InQueuedWrite c r := ⟨_, hfw ▸ List.mem_cons_self, rfl, List.mem_cons_self⟩
  have hp := h.placed hopen r
  unfold Placed at hp
  unfold Connection.onWriteCallback
  dsimp only
  cases hst : (c.callbacks r).state <;> simp only [hst, State.stage] at hp
  case writing =>
    cases ok
    · -- `defunct` unless closing: either way the socket is closing afterwards
      cases hclosing : c.isClosing <;> exact h.writeDone_failed hopen hfw hp hst
    · exact h.writeDone_reading hopen hfw hp (by rw [hst]; rfl) rfl (by rintro ⟨⟩)
  case cancelledWriting =>
    exact h.writeDone_reading hopen hfw hp (by rw [hst]; rfl) rfl fun _ => hst ▸ trivial
  case readBeforeWrite =>
    exact h.writeDone_answered hopen hfw hp (by rw [hst]; rfl) rfl (by rintro ⟨⟩) (by simp)
  case cancelledReadBeforeWrite =>
    exact h.writeDone_answered hopen hfw hp (by rw [hst]; rfl) rfl (fun _ => hst ▸ trivial)
      fun _ => hst ▸ trivial
  case reading | cancelledReading =>
    exact absurd hp.inReads (h.not_inReads_of_inWrites hq.inWrites)
  case new | finished | cancelled =>
    exact absurd hq.inWrites hp.notInWrites

end WriteDone

/-- The loop of `on_write` over the requests of the oldest write, which `uv_write` queued. -/
lemma Inv.onWriteLoop (ok : Bool) (rest : List FlushedWrite) (todo : List Nat) (h : Inv c)
    (hopen : c.isClosed = false) (hfw : c.flushedWrites = ⟨todo, true⟩ :: rest)
    (hok : c.isClosing = true → ok = false) :
    Inv (onWriteLoop ok true rest todo c) ∧ (onWriteLoop ok true rest todo c).isClosed = false := by
  -- induction on the requests left in the write, the invariant holding between turns
  induction todo generalizing c with
  | nil =>
    -- the emptied write is taken out of `pending_writes_`
    rw [Connection.onWriteLoop]
    refine ⟨h.of_leaves_all h.streams (by simpa [writeCallbacks, hfw] using h.nodup) h.failures rfl
      id fun r => .of_callbacks rfl ?_ ?_ .rfl (fun _ => .rfl) id, hopen⟩
    · simp [InWrites, writeCallbacks, hfw]
    · simp [InQueuedWrite, hfw]
  | cons r todo ih =>
    rw [Connection.onWriteLoop]
    exact ih (h.onWriteCallback hopen hfw ok hok) (by simp [hopen]) (by simp)
      fun hc => (onWriteCallback_isClosing _ _ _ hc).elim hok id

/-- `on_write` for the oldest write, which `uv_write` queued, then `flush`. -/
theorem Inv.onWrite (h : Inv c) (hopen : c.isClosed = false) {ok : Bool}
    (hqueued : ∃ pw rest, c.flushedWrites = pw :: rest ∧ pw.queued = true)
    (hok : c.isClosing = true → ok = false) : Inv (c.onWrite ok) := by
  obtain ⟨⟨todo, q⟩, rest, hfw, hq⟩ := hqueued
  obtain rfl : q = true := hq
  obtain ⟨hloop, hopen'⟩ := Inv.onWriteLoop ok rest todo h hopen hfw hok
  rw [Connection.onWrite, hfw]
  exact hloop.flush hopen'

/-! ### Closing -/

/-- What `cleanup_pending_callbacks` does to a callback: a state and an ending, cancelled only
after a cancellation, and the reference dropped. -/
def Cleaned (cb cb' : Callback) : Prop :=
  ∃ s e, (s.IsCancelled → cb.state.IsCancelled) ∧ (e = .cancel → cb.state.IsCancelled) ∧
    cb' = { cb with state := s, endings := cb.endings ++ [e], drops := cb.drops + 1 }

/-- The cleanup of a request that is being written or read, or was answered: no assertion
fails. -/
lemma cleanupCallback_of_live (hlive : (c.callbacks r).state.stage ≠ .done) :
    ∃ f, c.cleanupCallback r = c.modify r f ∧ Cleaned (c.callbacks r) (f (c.callbacks r)) := by
  unfold cleanupCallback
  dsimp only
  cases hst : (c.callbacks r).state <;> simp only [hst, State.stage] at hlive
  case new | finished | cancelled => exact absurd rfl hlive
  case writing | reading =>
    exact ⟨_, setRequestState_notify_decRef _ (by rw [hst]; rfl), .finished, _, by rintro ⟨⟩,
      by split <;> simp, rfl⟩
  case readBeforeWrite =>
    exact ⟨_, setRequestState_notify_decRef _ (by rw [hst]; rfl), .finished, .set, by rintro ⟨⟩,
      by simp, rfl⟩
  case cancelledWriting | cancelledReading | cancelledReadBeforeWrite =>
    exact ⟨_, setRequestState_notify_decRef _ (by rw [hst]; rfl), .cancelled, .cancel,
      fun _ => by rw [hst]; trivial, fun _ => by rw [hst]; trivial, rfl⟩

/-- `cleanup_pending_callbacks` over distinct requests that are being written or read, or were
answered: each one is cleaned once, and nothing else changes. -/
lemma foldl_cleanupCallback (l : List Nat) (hl : l.Nodup) (c : Connection)
    (hlive : ∀ r ∈ l, (c.callbacks r).state.stage ≠ .done) :
    ∃ f : Nat → Callback, l.foldl cleanupCallback c = { c with callbacks := f } ∧
      ∀ r, (r ∈ l → Cleaned (c.callbacks r) (f r)) ∧ (r ∉ l → f r = c.callbacks r) := by
  induction l generalizing c with
  | nil => exact ⟨c.callbacks, rfl, fun r => ⟨nofun, fun _ => rfl⟩⟩
  | cons r l ih =>
    obtain ⟨hr, hl⟩ := List.nodup_cons.mp hl
    obtain ⟨g, hg, hcleaned⟩ := cleanupCallback_of_live (hlive r List.mem_cons_self)
    -- the others are untouched by the cleanup of `r`
    have hothers : ∀ r' ∈ l, (c.modify r g).callbacks r' = c.callbacks r' := fun r' hr' =>
      modify_callbacks_of_ne _ _ _ fun he => hr (he ▸ hr')
    obtain ⟨f, hfold, hf⟩ := ih hl (c.modify r g) fun r' hr' =>
      hothers r' hr' ▸ hlive r' (List.mem_cons_of_mem _ hr')
    refine ⟨f, by rw [List.foldl_cons, hg, hfold]; rfl, fun r' => ⟨fun hr' => ?_, fun hr' => ?_⟩⟩
    · rcases List.mem_cons.mp hr' with rfl | hr'
      · rw [(hf r').2 hr, modify_callbacks_self]
        exact hcleaned
      · rw [← hothers r' hr']
        exact (hf r').1 hr'
    · rw [(hf r').2 (fun h => hr' (List.mem_cons_of_mem _ h)),
        modify_callbacks_of_ne _ _ _ fun he => hr' (List.mem_cons.mpr (Or.inl he))]

/-- A pending request is being written or read, or was answered. -/
lemma Placed.live (hp : Placed c r) (hr : r ∈ c.pendingReads ++ c.writeCallbacks) :
    (c.callbacks r).state.stage ≠ .done ∧ (c.callbacks r).refs = 1 ∧ (c.callbacks r).endings = [] := by
  unfold Placed at hp
  split at hp
  · next hstage => exact ⟨by rw [hstage]; decide, hp.refs, hp.endings⟩
  · next hstage => exact ⟨by rw [hstage]; decide, hp.refs, hp.endings⟩
  · next hstage => exact ⟨by rw [hstage]; decide, hp.refs, hp.endings⟩
  · exact absurd hr (by rw [List.mem_append]; exact not_or.mpr ⟨hp.notInReads, hp.notInWrites⟩)

/-- A request the connection does not hold has all its endings: none if it was never taken. -/
lemma Placed.endings_length_of_not_mem (hp : Placed c r) (hcounted : Counted (c.callbacks r))
    (hr : r ∉ c.pendingReads ++ c.writeCallbacks) :
    (c.callbacks r).endings.length = (c.callbacks r).refs := by
  have hw : ¬InWrites c r := fun hw => hr (List.mem_append_right _ hw)
  have hrd : r ∉ c.pendingReads := fun hrd => hr (List.mem_append_left _ hrd)
  unfold Placed at hp
  split at hp
  · exact absurd hp.inWrites hw
  · exact absurd hp.queued.inWrites hw
  · exact absurd hp.inReads hrd
  · -- untouched, or ended once
    rcases Nat.le_one_iff_eq_zero_or_eq_one.mp hcounted.refs_le with h0 | h1
    · rw [h0]
      exact Nat.le_zero.mp (h0 ▸ hcounted.endings_le)
    · rw [h1]
      exact Nat.le_antisymm (h1 ▸ hcounted.endings_le)
        (List.length_pos_of_ne_nil (hp.ended h1).1)

/-- `on_close` cleans every pending request once and empties the lists; nothing else changes
but the flag. -/
lemma Inv.onClose_eq (h : Inv c) (hopen : c.isClosed = false) :
    ∃ f : Nat → Callback, c.onClose = { c with
        callbacks := f, pendingReads := [], flushedWrites := [], unflushed := none,
        isClosed := true } ∧
      ∀ r, (r ∈ c.pendingReads ++ c.writeCallbacks → Cleaned (c.callbacks r) (f r)) ∧
        (r ∉ c.pendingReads ++ c.writeCallbacks → f r = c.callbacks r) := by
  obtain ⟨f, hfold, hf⟩ := foldl_cleanupCallback _ h.nodup
    { c with pendingReads := [], flushedWrites := [], unflushed := none }
    fun r hr => ((h.placed hopen r).live hr).1
  refine ⟨f, ?_, hf⟩
  unfold Connection.onClose
  dsimp only
  rw [hfold]

/-- `on_close` ends every pending request once, and the connection is closed. -/
theorem Inv.onClose (h : Inv c) (hclosing : c.isClosing = true) (hopen : c.isClosed = false) :
    Inv c.onClose := by
  have hlive : ∀ r ∈ c.pendingReads ++ c.writeCallbacks,
      (c.callbacks r).state.stage ≠ .done ∧ (c.callbacks r).refs = 1 ∧
        (c.callbacks r).endings = [] :=
    fun r hr => (h.placed hopen r).live hr
  obtain ⟨f, hclose, hf⟩ := h.onClose_eq hopen
  rw [hclose]
  refine ⟨h.streams, by simp [writeCallbacks], h.failures, fun r => ?_, fun hc => absurd hc (by simp),
    fun _ => ⟨hclosing, fun r => ?_⟩⟩
  · by_cases hr : r ∈ c.pendingReads ++ c.writeCallbacks
    · -- cleaned: its one ending, and its reference dropped
      obtain ⟨-, hrefs, hend⟩ := hlive r hr
      obtain ⟨s, e, hcancelled, hcancel, hcb⟩ := (hf r).1 hr
      have hcounted := h.counted r
      simp only [hcb]
      refine Counted.of_taken hrefs (by simp [hcounted.drops_eq]) (by simp [hend])
        (hrefs ▸ hcounted.releases_le) (fun hc => hcounted.cancelRequested_of_isCancelled
          (hcancelled hc)) fun hc => ?_
      rw [hend, List.nil_append, List.mem_singleton] at hc
      exact hcounted.cancelRequested_of_isCancelled (hcancel hc.symm)
    · simp only [(hf r).2 hr]
      exact h.counted r
  · by_cases hr : r ∈ c.pendingReads ++ c.writeCallbacks
    · obtain ⟨-, hrefs, hend⟩ := hlive r hr
      obtain ⟨s, e, -, -, hcb⟩ := (hf r).1 hr
      simp [hcb, hrefs, hend]
    · simp only [(hf r).2 hr]
      exact (h.placed hopen r).endings_length_of_not_mem (h.counted r) hr

/-- A request `on_close` ends while it is being written or read keeps its stream: the stream
manager goes with the connection. -/
theorem Inv.onClose_unreleased (h : Inv c) (hopen : c.isClosed = false)
    (hr : r ∈ c.pendingReads ++ c.writeCallbacks)
    (hstage : (c.callbacks r).state.stage = .writing ∨ (c.callbacks r).state.stage = .reading) :
    (c.onClose.callbacks r).endings ≠ [] ∧ (c.onClose.callbacks r).releases = 0 := by
  have hreleases : (c.callbacks r).releases = 0 := by
    have hp := h.placed hopen r
    unfold Placed at hp
    rcases hstage with hstage | hstage <;> rw [hstage] at hp
    · exact hp.releases
    · exact hp.releases
  obtain ⟨f, hclose, hf⟩ := h.onClose_eq hopen
  obtain ⟨s, e, -, -, hcb⟩ := (hf r).1 hr
  rw [hclose]
  simp [hcb, hreleases]

/-- A response on a pending stream goes to its request, by the request's state; a response on
any other stream closes the connection. -/
theorem Inv.consume (h : Inv c) {s : Int} (hclosing : c.isClosing = false)
    (hsent : ∀ r, c.streamManager.pending.lookup s = some r → (c.callbacks r).sent = true) :
    Inv (c.consume s) := by
  have hopen := h.isClosed_of_isClosing hclosing
  obtain ⟨sm, hget, hsm, hpending, -⟩ := h.streams.getPendingAndRelease s
  cases hlookup : c.streamManager.pending.lookup s with
  | none =>
    -- `Invalid stream ID`
    have hc : c.consume s = c.defunct := by simp [Connection.consume, hget, hlookup]
    rw [hc]
    exact h.defunct
  | some r =>
    have hs := hsent r hlookup
    have hp := h.placed hopen r
    rw [Connection.consume, hget, hlookup]
    simp only [modify_callbacks_self]
    unfold Placed at hp
    -- the server holds only requests being written or read
    cases hst : (c.callbacks r).state <;> simp only [hst, State.stage] at hp ⊢
    case writing =>
      exact h.consume_writing hopen hp hs hlookup hsm hpending (by rw [hst]; rfl) rfl
        (by rintro ⟨⟩)
    case cancelledWriting =>
      exact h.consume_writing hopen hp hs hlookup hsm hpending (by rw [hst]; rfl) rfl
        fun _ => hst ▸ trivial
    case reading =>
      exact h.consume_reading hopen hp hlookup hsm hpending (by rw [hst]; rfl) rfl
        (by rintro ⟨⟩) (by simp)
    case cancelledReading =>
      exact h.consume_reading hopen hp hlookup hsm hpending (by rw [hst]; rfl) rfl
        (fun _ => hst ▸ trivial) fun _ => hst ▸ trivial
    case readBeforeWrite | cancelledReadBeforeWrite =>
      exact absurd (hp.sent.symm.trans hs) Bool.false_ne_true
    case new | finished | cancelled =>
      exact absurd (hp.sent hs) (by rw [hclosing]; decide)

/-- Every event the event loop delivers keeps the invariant. -/
theorem Inv.step (h : Inv c) {ev : Event} (hallowed : c.Allowed ev) : Inv (c.step ev) := by
  cases ev with
  | write r encodes flushImmediately =>
    exact h.internalWrite hallowed.1 hallowed.2 encodes flushImmediately
  | flush => exact h.flush (h.isClosed_of_isClosing hallowed)
  | writeDone ok => exact h.onWrite hallowed.1 hallowed.2.1 hallowed.2.2
  | response stream => exact h.consume hallowed.2.1 hallowed.2.2
  | cancel r => exact h.cancel hallowed
  | close => exact h.defunct
  | closed => exact h.onClose hallowed.1 hallowed.2

end Events

/-- A new connection holds no request. -/
lemma inv_new (protocolVersion : Int) (isIdempotent : Nat → Bool) :
    Inv (Connection.new protocolVersion isIdempotent) where
  streams := StreamManager.inv_new protocolVersion
  nodup := List.nodup_nil
  failures := rfl
  counted _ := ⟨Nat.zero_le _, rfl, Nat.le_refl _, Nat.le_refl _, fun _ => Or.inl rfl, nofun, nofun⟩
  placed _ _ := ⟨nofun, nofun, fun _ => by simp [Connection.new, StreamManager.new], nofun, nofun⟩
  closed := nofun

/-- The invariant holds of every connection a run of the event loop reaches. -/
theorem Reachable.inv {c : Connection} (hc : Reachable c) : Inv c := by
  induction hc with
  | new protocolVersion isIdempotent => exact inv_new protocolVersion isIdempotent
  | step _ hallowed ih => exact ih.step hallowed

section Consequences

variable {c : Connection} {r : Nat}

/-- While the server holds a request, its stream is pending for it, so `acquire` hands out
another one, or none. -/
lemma Inv.acquire_ne_stream (h : Inv c) (hclosing : c.isClosing = false)
    (hsent : (c.callbacks r).sent = true) (r' : Nat) :
    (c.streamManager.acquire r').1 ≠ (c.callbacks r).stream := by
  have hholds := (h.placed (h.isClosed_of_isClosing hclosing) r).holdsStream_of_sent hclosing hsent
  have hmem : (c.callbacks r).stream ∈ c.streamManager.pending :=
    AList.lookup_isSome.1 (by simp [(hholds _).mpr rfl])
  rcases (h.streams.acquire r').2.2 with ⟨-, -, hfree, -⟩ | ⟨hneg, -, -⟩
  · exact fun he => hfree (he ▸ hmem)
  · have hpos := (h.streams.pending_lt _ hmem).1
    omega

/-- Before the connection closes, a request that has its ending had its stream released. -/
lemma Inv.releases_of_ended (h : Inv c) (hopen : c.isClosed = false)
    (hended : (c.callbacks r).endings ≠ []) : (c.callbacks r).releases = 1 := by
  have hp := h.placed hopen r
  have hcounted := h.counted r
  unfold Placed at hp
  split at hp
  · exact absurd hp.endings hended
  · exact absurd hp.endings hended
  · exact absurd hp.endings hended
  · -- an ending means the reference was taken
    have hrefs : (c.callbacks r).refs = 1 := Nat.le_antisymm hcounted.refs_le
      (Nat.le_trans (List.length_pos_of_ne_nil hended) hcounted.endings_le)
    exact (hp.ended hrefs).2

end Consequences

/-- What the connection does to every request callback, over every run of the event loop. -/
structure Lifecycle (c : Connection) : Prop where
  /-- no assertion fails: every `set_state` the connection makes is a transition it allows -/
  failures : c.failures = 0
  /-- the connection holds at most one reference to a callback -/
  refs_le : ∀ r, (c.callbacks r).refs ≤ 1
  /-- it drops its reference once with each ending -/
  drops_eq : ∀ r, (c.callbacks r).drops = (c.callbacks r).endings.length
  /-- at most one of `on_set`, `on_error`, `on_retry_next_host` and `on_cancel`, and only for a
  request it took -/
  endings_le : ∀ r, (c.callbacks r).endings.length ≤ (c.callbacks r).refs
  /-- the stream is released at most once -/
  releases_le : ∀ r, (c.callbacks r).releases ≤ (c.callbacks r).refs
  /-- `on_cancel` only after a cancellation -/
  cancelRequested : ∀ r, Ending.cancel ∈ (c.callbacks r).endings →
    (c.callbacks r).cancelRequested = true
  /-- while the server holds a request and the socket reads, its stream is not handed out -/
  acquire_ne : ∀ r, (c.callbacks r).sent = true → c.isClosing = false →
    ∀ r', (c.streamManager.acquire r').1 ≠ (c.callbacks r).stream
  /-- before the connection closes, a request that ended had its stream released -/
  released : c.isClosed = false → ∀ r, (c.callbacks r).endings ≠ [] →
    (c.callbacks r).releases = 1
  /-- once it is closed, every request it took has had its ending -/
  ended : c.isClosed = true → ∀ r, (c.callbacks r).endings.length = (c.callbacks r).refs

/-- Every connection a run of the event loop reaches keeps the lifecycle of its requests. -/
theorem lifecycle_of_reachable {c : Connection} (hc : Reachable c) : Lifecycle c := by
  have h := hc.inv
  exact ⟨h.failures, fun r => (h.counted r).refs_le, fun r => (h.counted r).drops_eq,
    fun r => (h.counted r).endings_le, fun r => (h.counted r).releases_le,
    fun r => (h.counted r).cancelRequested_of_cancel,
    fun _ hsent hclosing r' => h.acquire_ne_stream hclosing hsent r',
    fun hopen _ hended => h.releases_of_ended hopen hended, fun hc => (h.closed hc).2⟩

/-- A connection that wrote one request and flushed it. -/
theorem lifecycle_of_reachable_written :
    Lifecycle ((Connection.new 2 fun _ => false).step (.write 0 true true)) :=
  lifecycle_of_reachable (.step (.new 2 _) ⟨rfl, rfl⟩)

/-- A request written and flushed, whose write libuv completed, on a connection that then closes
while the request waits for its response: `on_close` ends it, and its stream is never released. -/
theorem reachable_ended_unreleased :
    ∃ c, Reachable c ∧ c.isClosed = true ∧ ∃ r, (c.callbacks r).endings ≠ [] ∧
      (c.callbacks r).releases = 0 := by
  have hwritten : Reachable ((Connection.new 2 fun _ => false).step (.write 0 true true)) :=
    .step (.new 2 _) ⟨rfl, rfl⟩
  -- the write completes first, so no write is left for `on_close`
  have hreading : Reachable (((Connection.new 2 fun _ => false).step (.write 0 true true)).step
      (.writeDone true)) :=
    .step hwritten ⟨rfl, ⟨_, _, rfl, rfl⟩, by decide⟩
  have hclosing := @Reachable.step _ .close hreading trivial
  exact ⟨_, @Reachable.step _ .closed hclosing ⟨rfl, by decide⟩, rfl, 0,
    hclosing.inv.onClose_unreleased (r := 0) (by decide) (by decide) (Or.inr (by decide))⟩

end Connection

end CassandraDriver
