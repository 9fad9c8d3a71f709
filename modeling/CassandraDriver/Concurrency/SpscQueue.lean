import CassandraDriver.Concurrency.MpmcQueue
import CassandraDriver.Data.BoundedQueue

/-!
# The bounded SPSC queue

`SPSCQueue<T>` of `spsc_queue.hpp` hands requests from the session thread to one I/O thread
(`IOWorker::execute` and `close_async` produce, `IOWorker::on_execute` consumes). It is a ring of
`size_` slots and two indices below `size_`: the producer writes the slot at `tail_` and then moves
`tail_` on, the consumer reads the slot at `head_` and then moves `head_` on. `enqueue` refuses
when the slot after `tail_` is `head_`, so the ring never holds more than `size_ - 1` values, and
`dequeue` refuses when `head_` is `tail_`.

As for the MPMC queue, each access to `tail_`, `head_` or a slot is one atomic step and the steps
of the two threads interleave in any order. A thread reads the index only it writes without a step
of its own. The state also records what no step reads: `sent`, the values of the enqueues that
returned `true`, and `received`, the values of the dequeues that did, each in order.

Over every interleaving the consumer receives a prefix of what the producer sent
(`received_prefix_sent`), the ring holds at most `size_ - 1` values (`sent_lt_received_add_size`),
and each call returns `false` exactly when the ring is full or empty
(`enqueue_fails_iff_full`, `dequeue_fails_iff_empty`).
-/

namespace CassandraDriver.SPSCQueue

/-- Where the producer is in `enqueue`: it has loaded `pos = tail_` and compares the next slot
with `head_`, then writes the slot, then stores the next index into `tail_`. -/
inductive Producer (α : Type)
  | idle
  | loadHead (data : α) (pos : Nat)
  | write (data : α) (pos : Nat)
  | publish (data : α) (pos : Nat)
  deriving DecidableEq, Repr

/-- Where the consumer is in `dequeue`: it has loaded `pos = head_` and compares it with `tail_`,
then reads the slot, then stores the next index into `head_`. -/
inductive Consumer (α : Type)
  | idle
  | loadTail (pos : Nat)
  | read (pos : Nat)
  | publish (pos : Nat) (data : Option α)
  deriving DecidableEq, Repr

/-- The queue and its two threads. A slot is `none` until the producer writes it. -/
structure State (α : Type) where
  tail : Nat
  head : Nat
  buffer : Nat → Option α
  producer : Producer α
  consumer : Consumer α
  sent : List α
  received : List (Option α)

/-- A call of `enqueue` or `dequeue`, or the next step of the producer or of the consumer. -/
inductive Action (α : Type)
  | enqueue (data : α)
  | dequeue
  | producerStep
  | consumerStep

variable {α : Type}

/-- A new queue: both indices at zero. -/
def init : State α := ⟨0, 0, fun _ => none, .idle, .idle, [], []⟩

/-- One step, `none` when the thread is not at one. `q.index (pos + 1)` is
`(pos + 1) & mask_`. -/
def step (q : QueueSize) (s : State α) : Action α → Option (State α)
  | .enqueue d =>
    match s.producer with
    | .idle => some { s with producer := .loadHead d s.tail }
    | _ => none
  | .dequeue =>
    match s.consumer with
    | .idle => some { s with consumer := .loadTail s.head }
    | _ => none
  | .producerStep =>
    match s.producer with
    | .idle => none
    | .loadHead d pos =>
      if q.index (pos + 1) = s.head then some { s with producer := .idle }
      else some { s with producer := .write d pos }
    | .write d pos =>
      some { s with buffer := Function.update s.buffer pos (some d), producer := .publish d pos }
    | .publish d pos =>
      some { s with tail := q.index (pos + 1), producer := .idle, sent := s.sent ++ [d] }
  | .consumerStep =>
    match s.consumer with
    | .idle => none
    | .loadTail pos =>
      if pos = s.tail then some { s with consumer := .idle }
      else some { s with consumer := .read pos }
    | .read pos => some { s with consumer := .publish pos (s.buffer pos) }
    | .publish pos v =>
      some { s with head := q.index (pos + 1), consumer := .idle, received := s.received ++ [v] }

/-- A run of actions; `none` when one of them is not enabled. -/
def run (q : QueueSize) (s : State α) : List (Action α) → Option (State α)
  | [] => some s
  | a :: as => (step q s a).bind fun s => run q s as

/-- The states some interleaving of the two threads reaches from a new queue. -/
inductive Reachable (q : QueueSize) : State α → Prop
  | init : Reachable q init
  | step {s s' : State α} (a : Action α) : Reachable q s → step q s a = some s' → Reachable q s'

lemma Reachable.run {q : QueueSize} {s s' : State α} {as : List (Action α)}
    (hs : Reachable q s) (h : SPSCQueue.run q s as = some s') : Reachable q s' := by
  -- induction on the actions, the reachable state moving along
  induction as generalizing s with
  | nil =>
    rw [SPSCQueue.run, Option.some.injEq] at h
    exact h ▸ hs
  | cons a as ih =>
    rw [SPSCQueue.run, Option.bind_eq_some_iff] at h
    obtain ⟨s₁, h₁, h₂⟩ := h
    exact ih (hs.step a h₁) h₂

/-- The producer is in no call. -/
def Producer.isIdle : Producer α → Bool
  | .idle => true
  | _ => false

/-- The consumer is in no call. -/
def Consumer.isIdle : Consumer α → Bool
  | .idle => true
  | _ => false

/-- The producer runs alone until its call returns; `fuel` bounds its steps. -/
def runProducer (q : QueueSize) : Nat → State α → Option (State α)
  | 0, s => if s.producer.isIdle then some s else none
  | fuel + 1, s =>
    if s.producer.isIdle then some s else (step q s .producerStep).bind (runProducer q fuel)

/-- The consumer runs alone until its call returns; `fuel` bounds its steps. -/
def runConsumer (q : QueueSize) : Nat → State α → Option (State α)
  | 0, s => if s.consumer.isIdle then some s else none
  | fuel + 1, s =>
    if s.consumer.isIdle then some s else (step q s .consumerStep).bind (runConsumer q fuel)

lemma Reachable.runProducer {q : QueueSize} {s s' : State α} {fuel : Nat} (hs : Reachable q s)
    (h : runProducer q fuel s = some s') : Reachable q s' := by
  -- one producer step per unit of fuel
  induction fuel generalizing s with
  | zero =>
    rw [SPSCQueue.runProducer] at h
    split_ifs at h
    cases h
    exact hs
  | succ fuel ih =>
    rw [SPSCQueue.runProducer] at h
    split_ifs at h
    · cases h
      exact hs
    · obtain ⟨s₁, h₁, h₂⟩ := Option.bind_eq_some_iff.mp h
      exact ih (hs.step _ h₁) h₂

lemma Reachable.runConsumer {q : QueueSize} {s s' : State α} {fuel : Nat} (hs : Reachable q s)
    (h : runConsumer q fuel s = some s') : Reachable q s' := by
  -- one consumer step per unit of fuel
  induction fuel generalizing s with
  | zero =>
    rw [SPSCQueue.runConsumer] at h
    split_ifs at h
    cases h
    exact hs
  | succ fuel ih =>
    rw [SPSCQueue.runConsumer] at h
    split_ifs at h
    · cases h
      exact hs
    · obtain ⟨s₁, h₁, h₂⟩ := Option.bind_eq_some_iff.mp h
      exact ih (hs.step _ h₁) h₂

/-! ### The invariant -/

variable {q : QueueSize} {s : State α}

/-- What the producer knows in the middle of `enqueue`: `tail_` is still the index it loaded, and
once it has seen room, the ring still has room and, after the write, the slot holds its value. -/
def ProducerOk (q : QueueSize) (s : State α) : Producer α → Prop
  | .idle => True
  | .loadHead _ pos => pos = s.tail
  | .write _ pos => pos = s.tail ∧ s.sent.length + 1 < s.received.length + q.size
  | .publish d pos =>
    pos = s.tail ∧ s.sent.length + 1 < s.received.length + q.size ∧ s.buffer pos = some d

/-- What the consumer knows in the middle of `dequeue`: `head_` is still the index it loaded, and
once it has seen a value, the value is there and, after the read, it holds the next one sent. -/
def ConsumerOk (s : State α) : Consumer α → Prop
  | .idle => True
  | .loadTail pos => pos = s.head
  | .read pos => pos = s.head ∧ s.received.length < s.sent.length
  | .publish pos v =>
    pos = s.head ∧ s.received.length < s.sent.length ∧ v = s.sent[s.received.length]?

/-- The invariant: the indices are the counts of values sent and received, taken modulo the
size; between the two counts lie at most `size_ - 1` values, each in the slot of its count; and
the values received are the first ones sent. -/
structure Inv (q : QueueSize) (s : State α) : Prop where
  received_le : s.received.length ≤ s.sent.length
  sent_lt : s.sent.length < s.received.length + q.size
  tail_eq : s.tail = s.sent.length % q.size
  head_eq : s.head = s.received.length % q.size
  buffer : ∀ k, s.received.length ≤ k → k < s.sent.length → s.buffer (k % q.size) = s.sent[k]?
  received : s.received = (s.sent.take s.received.length).map some
  producer : ProducerOk q s s.producer
  consumer : ConsumerOk s s.consumer

/-- The slot after index `pos % size` is the slot of `pos + 1`. -/
lemma index_succ_mod (pos : Nat) : q.index (pos % q.size + 1) = (pos + 1) % q.size := by
  rw [QueueSize.index_eq_mod, Nat.add_mod, Nat.mod_mod, ← Nat.add_mod]

/-- The values received after one more: the next one sent. -/
lemma take_succ_map_some {l : List α} {k : Nat} (hk : k < l.length) :
    (l.take (k + 1)).map some = (l.take k).map some ++ [l[k]?] := by
  rw [List.take_add_one, List.map_append, List.getElem?_eq_getElem hk]
  rfl

/-- The producer's write: the slot of the next count is outside the values in the ring. -/
lemma Inv.write (h : Inv q s) {d : α} {pos : Nat} (hph : s.producer = .write d pos) :
    Inv q { s with buffer := Function.update s.buffer pos (some d), producer := .publish d pos } := by
  have hok : pos = s.tail ∧ s.sent.length + 1 < s.received.length + q.size := by
    have := h.producer
    rwa [hph] at this
  obtain ⟨hpos, hroom⟩ := hok
  have hslot (k : Nat) (hk₁ : s.received.length ≤ k) (hk₂ : k < s.sent.length) :
      k % q.size ≠ pos := fun he => by
    rw [hpos, h.tail_eq] at he
    have := eq_of_mod_eq_of_lt_add he (by omega) (by omega)
    omega
  refine ⟨h.received_le, h.sent_lt, h.tail_eq, h.head_eq, ?_, h.received, ?_, ?_⟩
  · intro k hk₁ hk₂
    exact (Function.update_of_ne (hslot k hk₁ hk₂) _ _).trans (h.buffer k hk₁ hk₂)
  · exact ⟨hpos, hroom, Function.update_self _ _ _⟩
  · have hc := h.consumer
    cases hcs : s.consumer with
    | idle => trivial
    | loadTail p => rw [hcs] at hc; exact hc
    | read p => rw [hcs] at hc; exact hc
    | publish p v => rw [hcs] at hc; exact hc

/-- The producer's store into `tail_`: the value written is sent. -/
lemma Inv.publishTail (h : Inv q s) {d : α} {pos : Nat} (hph : s.producer = .publish d pos) :
    Inv q { s with tail := q.index (pos + 1), producer := .idle, sent := s.sent ++ [d] } := by
  obtain ⟨hpos, hroom, hslot⟩ :
      pos = s.tail ∧ s.sent.length + 1 < s.received.length + q.size ∧ s.buffer pos = some d := by
    have := h.producer
    rwa [hph] at this
  have hsent (k : Nat) (hk : k < s.sent.length) : (s.sent ++ [d])[k]? = s.sent[k]? :=
    List.getElem?_append_left hk
  refine ⟨?_, ?_, ?_, h.head_eq, ?_, ?_, trivial, ?_⟩
  · rw [List.length_append]
    exact h.received_le.trans (Nat.le_succ _)
  · rw [List.length_append, List.length_singleton]
    exact hroom
  · show q.index (pos + 1) = (s.sent ++ [d]).length % q.size
    rw [hpos, h.tail_eq, index_succ_mod, List.length_append, List.length_singleton]
  · intro k hk₁ hk₂
    rw [List.length_append, List.length_singleton] at hk₂
    rcases Nat.lt_succ_iff_lt_or_eq.mp hk₂ with hk | rfl
    · rw [hsent k hk]
      exact h.buffer k hk₁ hk
    · -- the new value is in the slot the producer wrote
      rw [List.getElem?_append_right le_rfl, Nat.sub_self, ← h.tail_eq, ← hpos]
      exact hslot
  · show s.received = ((s.sent ++ [d]).take s.received.length).map some
    rw [List.take_append_of_le_length h.received_le]
    exact h.received
  · have hc := h.consumer
    cases hcs : s.consumer with
    | idle => trivial
    | loadTail p => rw [hcs] at hc; exact hc
    | read p =>
      rw [hcs] at hc
      obtain ⟨hp, hlt⟩ := hc
      exact ⟨hp, by simp only [List.length_append, List.length_singleton]; omega⟩
    | publish p v =>
      rw [hcs] at hc
      obtain ⟨hp, hlt, hv⟩ := hc
      exact ⟨hp, by simp only [List.length_append, List.length_singleton]; omega,
        hv.trans (hsent _ hlt).symm⟩

/-- The consumer's store into `head_`: the value read is received, the next one sent. -/
lemma Inv.publishHead (h : Inv q s) {pos : Nat} {v : Option α}
    (hph : s.consumer = .publish pos v) :
    Inv q { s with head := q.index (pos + 1), consumer := .idle, received := s.received ++ [v] } := by
  obtain ⟨hpos, hlt, hv⟩ :
      pos = s.head ∧ s.received.length < s.sent.length ∧ v = s.sent[s.received.length]? := by
    have := h.consumer
    rwa [hph] at this
  refine ⟨?_, ?_, h.tail_eq, ?_, ?_, ?_, ?_, trivial⟩
  · rw [List.length_append, List.length_singleton]
    exact hlt
  · have := h.sent_lt
    simp only [List.length_append, List.length_singleton]
    omega
  · show q.index (pos + 1) = (s.received ++ [v]).length % q.size
    rw [hpos, h.head_eq, index_succ_mod, List.length_append, List.length_singleton]
  · intro k hk₁ hk₂
    rw [List.length_append, List.length_singleton] at hk₁
    exact h.buffer k (by omega) hk₂
  · show s.received ++ [v] = (s.sent.take (s.received ++ [v]).length).map some
    rw [List.length_append, List.length_singleton, take_succ_map_some hlt, ← h.received, hv]
  · have hp := h.producer
    cases hps : s.producer with
    | idle => trivial
    | loadHead d p => rw [hps] at hp; exact hp
    | write d p =>
      rw [hps] at hp
      obtain ⟨hp, hroom⟩ := hp
      exact ⟨hp, by simp only [List.length_append, List.length_singleton]; omega⟩
    | publish d p =>
      rw [hps] at hp
      obtain ⟨hp, hroom, hslot⟩ := hp
      exact ⟨hp, by simp only [List.length_append, List.length_singleton]; omega, hslot⟩

/-- The producer sees room exactly when the ring holds fewer than `size_ - 1` values. -/
lemma Inv.index_succ_eq_head_iff (h : Inv q s) :
    q.index (s.tail + 1) = s.head ↔ s.sent.length + 1 = s.received.length + q.size := by
  have hle := h.received_le
  have hlt := h.sent_lt
  rw [h.tail_eq, h.head_eq, index_succ_mod]
  constructor
  · intro he
    by_contra hne
    have := eq_of_mod_eq_of_lt_add he (by omega) (by omega)
    omega
  · intro he
    rw [he, Nat.add_mod_right]

/-- The consumer sees a value exactly when one was sent and not received. -/
lemma Inv.head_eq_tail_iff (h : Inv q s) : s.head = s.tail ↔ s.received.length = s.sent.length := by
  have hle := h.received_le
  have hlt := h.sent_lt
  rw [h.tail_eq, h.head_eq]
  constructor
  · intro he
    exact eq_of_mod_eq_of_lt_add he (by omega) (by omega)
  · intro he
    rw [he]

/-- Every step keeps the invariant. -/
theorem Inv.step (h : Inv q s) {a : Action α} {s' : State α} (hs : step q s a = some s') :
    Inv q s' := by
  cases a with
  | enqueue d =>
    cases hps : s.producer with
    | idle =>
      simp only [SPSCQueue.step, hps, Option.some.injEq] at hs
      subst hs
      exact { h with producer := rfl }
    | loadHead | write | publish => simp only [SPSCQueue.step, hps, reduceCtorEq] at hs
  | dequeue =>
    cases hcs : s.consumer with
    | idle =>
      simp only [SPSCQueue.step, hcs, Option.some.injEq] at hs
      subst hs
      exact { h with consumer := rfl }
    | loadTail | read | publish => simp only [SPSCQueue.step, hcs, reduceCtorEq] at hs
  | producerStep =>
    cases hps : s.producer with
    | idle => simp only [SPSCQueue.step, hps, reduceCtorEq] at hs
    | loadHead d pos =>
      have hpos : pos = s.tail := by
        have := h.producer
        rwa [hps] at this
      simp only [SPSCQueue.step, hps] at hs
      split_ifs at hs with hfull <;> cases hs
      · exact { h with producer := trivial }
      · -- the slot after `tail_` is not `head_`: there is room for one more value
        have hroom : s.sent.length + 1 < s.received.length + q.size := by
          have := h.sent_lt
          rw [hpos, h.index_succ_eq_head_iff] at hfull
          omega
        exact { h with producer := ⟨hpos, hroom⟩ }
    | write d pos =>
      simp only [SPSCQueue.step, hps, Option.some.injEq] at hs
      subst hs
      exact h.write hps
    | publish d pos =>
      simp only [SPSCQueue.step, hps, Option.some.injEq] at hs
      subst hs
      exact h.publishTail hps
  | consumerStep =>
    cases hcs : s.consumer with
    | idle => simp only [SPSCQueue.step, hcs, reduceCtorEq] at hs
    | loadTail pos =>
      have hpos : pos = s.head := by
        have := h.consumer
        rwa [hcs] at this
      simp only [SPSCQueue.step, hcs] at hs
      split_ifs at hs with hempty <;> cases hs
      · exact { h with consumer := trivial }
      · -- `head_` is not `tail_`: a value was sent and not received
        have hval : s.received.length < s.sent.length := by
          have := h.received_le
          rw [hpos, h.head_eq_tail_iff] at hempty
          omega
        exact { h with consumer := ⟨hpos, hval⟩ }
    | read pos =>
      obtain ⟨hpos, hval⟩ : pos = s.head ∧ s.received.length < s.sent.length := by
        have := h.consumer
        rwa [hcs] at this
      simp only [SPSCQueue.step, hcs, Option.some.injEq] at hs
      subst hs
      refine { h with consumer := ⟨hpos, hval, ?_⟩ }
      rw [hpos, h.head_eq]
      exact h.buffer _ le_rfl hval
    | publish pos v =>
      simp only [SPSCQueue.step, hcs, Option.some.injEq] at hs
      subst hs
      exact h.publishHead hcs

/-- A new queue: nothing sent, nothing received. -/
theorem inv_init : Inv q (init : State α) where
  received_le := le_rfl
  sent_lt := by
    show 0 < 0 + q.size
    rw [Nat.zero_add]
    exact q.size_pos
  tail_eq := (Nat.zero_mod _).symm
  head_eq := (Nat.zero_mod _).symm
  buffer _ hk₁ hk₂ := absurd (hk₁.trans_lt hk₂) (Nat.lt_irrefl 0)
  received := rfl
  producer := trivial
  consumer := trivial

/-- The invariant holds in every state an interleaving reaches. -/
theorem Reachable.inv (h : Reachable q s) : Inv q s := by
  induction h with
  | init => exact inv_init
  | step a _ hstep ih => exact ih.step hstep

/-! ### What the queue guarantees -/

/-- Over every interleaving of the producer and the consumer, the dequeues that returned `true`
gave out, in order, the values of the first enqueues that did: each value sent is received at
most once, in the order sent, and nothing else is received. -/
theorem received_prefix_sent (hr : Reachable q s) : s.received <+: s.sent.map some := by
  rw [hr.inv.received]
  exact (List.take_prefix _ _).map some

/-- The producer sends 5 while the consumer dequeues, their steps interleaved, until both calls
return. -/
def handOverRun : List (Action Nat) :=
  [.enqueue 5, .producerStep, .dequeue, .producerStep, .producerStep, .consumerStep,
    .consumerStep, .consumerStep]

/-- The consumer received the value sent. -/
theorem received_prefix_sent_handOver :
    ∃ s, run (QueueSize.two) init handOverRun = some s ∧
      s.received <+: s.sent.map some :=
  have hrun : run (QueueSize.two) init handOverRun = some _ := rfl
  ⟨_, hrun, received_prefix_sent (Reachable.run .init hrun)⟩

/-- The ring never holds more than `size_ - 1` values sent and not yet received. -/
theorem sent_lt_received_add_size (hr : Reachable q s) :
    s.sent.length < s.received.length + q.size :=
  hr.inv.sent_lt

/-- One value sent into a ring of two slots, and a second `enqueue` that has loaded `tail_`. -/
def oneSentRun : List (Action Nat) :=
  [.enqueue 5, .producerStep, .producerStep, .producerStep, .enqueue 6]

/-- One value fills a ring of two slots. -/
theorem sent_lt_received_add_size_oneSent :
    ∃ s, run (QueueSize.two) init oneSentRun = some s ∧
      s.sent.length < s.received.length + (QueueSize.two).size :=
  have hrun : run (QueueSize.two) init oneSentRun = some _ := rfl
  ⟨_, hrun, sent_lt_received_add_size (Reachable.run .init hrun)⟩

/-- The producer's `enqueue` returns `false` exactly when, at its load of `head_`, the ring
holds `size_ - 1` values: one slot always stays empty. -/
theorem enqueue_fails_iff_full (hr : Reachable q s) {d : α} {pos : Nat}
    (hph : s.producer = .loadHead d pos) :
    step q s .producerStep = some { s with producer := .idle } ↔
      s.sent.length + 1 = s.received.length + q.size := by
  have h := hr.inv
  have hpos : pos = s.tail := by
    have := h.producer
    rwa [hph] at this
  have hfull_iff : q.index (pos + 1) = s.head ↔ s.sent.length + 1 = s.received.length + q.size := by
    rw [hpos]
    exact h.index_succ_eq_head_iff
  rw [← hfull_iff]
  simp only [SPSCQueue.step, hph]
  split_ifs with hfull
  · exact iff_of_true rfl hfull
  · refine iff_of_false (fun he => ?_) hfull
    have := congrArg State.producer (Option.some.inj he)
    cases this

/-- The second `enqueue` into a ring of two slots holding one value returns `false`. -/
theorem enqueue_fails_iff_full_oneSent :
    ∃ s, run (QueueSize.two) init oneSentRun = some s ∧
      step (QueueSize.two) s .producerStep = some { s with producer := .idle } ∧
      s.sent.length = 1 :=
  have hrun : run (QueueSize.two) init oneSentRun = some _ := rfl
  ⟨_, hrun, (enqueue_fails_iff_full (Reachable.run .init hrun) rfl).mpr rfl, rfl⟩

/-- The consumer's `dequeue` returns `false` exactly when, at its load of `tail_`, every value
sent has been received. -/
theorem dequeue_fails_iff_empty (hr : Reachable q s) {pos : Nat}
    (hph : s.consumer = .loadTail pos) :
    step q s .consumerStep = some { s with consumer := .idle } ↔
      s.received.length = s.sent.length := by
  have h := hr.inv
  have hpos : pos = s.head := by
    have := h.consumer
    rwa [hph] at this
  have hempty_iff : pos = s.tail ↔ s.received.length = s.sent.length := by
    rw [hpos]
    exact h.head_eq_tail_iff
  rw [← hempty_iff]
  simp only [SPSCQueue.step, hph]
  split_ifs with hempty
  · exact iff_of_true rfl hempty
  · refine iff_of_false (fun he => ?_) hempty
    have := congrArg State.consumer (Option.some.inj he)
    cases this

/-- The producer has written 5 into its slot and not yet stored `tail_`; the consumer then
begins a `dequeue`. -/
def writtenRun : List (Action Nat) :=
  [.enqueue 5, .producerStep, .producerStep, .dequeue]

/-- The `dequeue` returns `false` though the slot already holds the value: it is not sent until
`tail_` moves. -/
theorem dequeue_fails_iff_empty_written :
    ∃ s, run (QueueSize.two) init writtenRun = some s ∧
      step (QueueSize.two) s .consumerStep = some { s with consumer := .idle } ∧
      s.buffer 0 = some 5 :=
  have hrun : run (QueueSize.two) init writtenRun = some _ := rfl
  ⟨_, hrun, (dequeue_fails_iff_empty (Reachable.run .init hrun) rfl).mpr rfl, rfl⟩

/-! ### A call that runs alone -/

/-- The values in the ring, oldest first, as a queue of at most `size_ - 1` values. -/
def Inv.view (h : Inv q s) : BoundedQueue α :=
  ⟨s.sent.drop s.received.length, q.size - 1, by
    rw [List.length_drop]
    have := h.sent_lt
    omega⟩

/-- Two states that sent and received the same values hold the same values in the ring. -/
lemma Inv.view_congr {s' : State α} (h : Inv q s) (h' : Inv q s') (hsent : s'.sent = s.sent)
    (hreceived : s'.received = s.received) : h'.view = h.view := by
  ext1
  · show s'.sent.drop s'.received.length = s.sent.drop s.received.length
    rw [hsent, hreceived]
  · rfl

/-- Every step of either thread, in any interleaving, changes the values in the ring by at most
one operation of the bounded queue: the producer's store of `tail_` is the `enqueue` of its value,
the consumer's store of `head_` the `dequeue` of the oldest value, and every other step leaves
the values as they are. So the ring behaves as a bounded queue whose operations are atomic, each
at one step of its call. -/
theorem view_step (h : Inv q s) {a : Action α} {s' : State α} (h' : Inv q s')
    (hs : step q s a = some s') :
    h'.view = h.view ∨
      (∃ d, h.view.enqueue d = some h'.view ∧ s'.sent = s.sent ++ [d]) ∨
      (∃ d, h.view.dequeue = some (d, h'.view) ∧ s'.received = s.received ++ [some d]) := by
  -- `sent` and `received` move only at the stores of `tail_` and `head_`
  cases a with
  | enqueue d =>
    cases hps : s.producer <;>
      simp only [SPSCQueue.step, hps, reduceCtorEq, Option.some.injEq] at hs
    subst hs
    exact .inl (h.view_congr h' rfl rfl)
  | dequeue =>
    cases hcs : s.consumer <;>
      simp only [SPSCQueue.step, hcs, reduceCtorEq, Option.some.injEq] at hs
    subst hs
    exact .inl (h.view_congr h' rfl rfl)
  | producerStep =>
    cases hps : s.producer with
    | idle => simp only [SPSCQueue.step, hps, reduceCtorEq] at hs
    | loadHead d pos =>
      simp only [SPSCQueue.step, hps] at hs
      split_ifs at hs <;> cases hs <;> exact .inl (h.view_congr h' rfl rfl)
    | write d pos =>
      simp only [SPSCQueue.step, hps, Option.some.injEq] at hs
      subst hs
      exact .inl (h.view_congr h' rfl rfl)
    | publish d pos =>
      obtain ⟨-, hroom, -⟩ :
          pos = s.tail ∧ s.sent.length + 1 < s.received.length + q.size ∧ s.buffer pos = some d := by
        have := h.producer
        rwa [hps] at this
      simp only [SPSCQueue.step, hps, Option.some.injEq] at hs
      subst hs
      refine .inr (.inl ⟨d, BoundedQueue.enqueue_eq_some_iff.2 ⟨?_, ?_, rfl⟩, rfl⟩)
      · show (s.sent.drop s.received.length).length < q.size - 1
        have := h.received_le
        rw [List.length_drop]
        omega
      · show (s.sent ++ [d]).drop s.received.length = s.sent.drop s.received.length ++ [d]
        exact List.drop_append_of_le_length h.received_le
  | consumerStep =>
    cases hcs : s.consumer with
    | idle => simp only [SPSCQueue.step, hcs, reduceCtorEq] at hs
    | loadTail pos =>
      simp only [SPSCQueue.step, hcs] at hs
      split_ifs at hs <;> cases hs <;> exact .inl (h.view_congr h' rfl rfl)
    | read pos =>
      simp only [SPSCQueue.step, hcs, Option.some.injEq] at hs
      subst hs
      exact .inl (h.view_congr h' rfl rfl)
    | publish pos v =>
      obtain ⟨-, hlt, hv⟩ : pos = s.head ∧ s.received.length < s.sent.length ∧
          v = s.sent[s.received.length]? := by
        have := h.consumer
        rwa [hcs] at this
      simp only [SPSCQueue.step, hcs, Option.some.injEq] at hs
      subst hs
      refine .inr (.inr ⟨s.sent[s.received.length], BoundedQueue.dequeue_eq_some_iff.2 ⟨?_, rfl⟩, ?_⟩)
      · show s.sent.drop s.received.length =
          s.sent[s.received.length] :: s.sent.drop (s.received ++ [v]).length
        rw [List.length_append, List.length_singleton, List.drop_eq_getElem_cons hlt]
      · rw [hv, List.getElem?_eq_getElem hlt]

/-- The producer's `enqueue` of 5 while the consumer has begun a `dequeue`, up to the producer's
write of the slot. -/
def writingRun : List (Action Nat) :=
  [.enqueue 5, .producerStep, .dequeue, .producerStep]

/-- The producer's store of `tail_`, with the consumer in its `dequeue`, is the `enqueue` of 5. -/
theorem view_step_publish :
    ∃ s s', run (QueueSize.two) init writingRun = some s ∧
      step (QueueSize.two) s .producerStep = some s' ∧
      ∃ (h : Inv (QueueSize.two) s) (h' : Inv (QueueSize.two) s'),
        h.view.items = [] ∧ h'.view.items = [5] ∧
        (h'.view = h.view ∨
          (∃ d, h.view.enqueue d = some h'.view ∧ s'.sent = s.sent ++ [d]) ∨
          (∃ d, h.view.dequeue = some (d, h'.view) ∧ s'.received = s.received ++ [some d])) :=
  have hrun : run (QueueSize.two) init writingRun = some _ := rfl
  have hstep : step (QueueSize.two) _ .producerStep = some _ := rfl
  have hr := Reachable.run .init hrun
  ⟨_, _, hrun, hstep, hr.inv, (hr.step _ hstep).inv, rfl, rfl,
    view_step hr.inv (hr.step _ hstep).inv hstep⟩

/-- A call of `enqueue` that the producer runs to its return, whatever the consumer is doing and
with the consumer standing still meanwhile, takes three steps and writes its value at `tail_`
when the ring holds fewer than `size_ - 1` values; otherwise it changes nothing. -/
theorem runProducer_enqueue (hr : Reachable q s) (hidle : s.producer = .idle) (d : α) :
    (step q s (.enqueue d)).bind (runProducer q 3) =
      some (if s.sent.length + 1 < s.received.length + q.size then
        { s with
          tail := q.index (s.tail + 1)
          buffer := Function.update s.buffer s.tail (some d)
          sent := s.sent ++ [d] }
      else s) := by
  have h := hr.inv
  split_ifs with hroom
  · have hne : q.index (s.tail + 1) ≠ s.head := by
      rw [Ne, h.index_succ_eq_head_iff]
      omega
    simp only [SPSCQueue.step, hidle, Option.bind_some, runProducer, Producer.isIdle, hne,
      Bool.false_eq_true, ↓reduceIte]
  · have hfull : q.index (s.tail + 1) = s.head := by
      rw [h.index_succ_eq_head_iff]
      have := h.sent_lt
      omega
    simp only [SPSCQueue.step, hidle, Option.bind_some, runProducer, Producer.isIdle, hfull,
      if_true, Bool.false_eq_true, if_false]
    rw [← hidle]

/-- A call of `dequeue` that the consumer runs to its return, with the producer standing still
meanwhile, takes three steps and receives the oldest value sent when there is one; otherwise it
changes nothing. -/
theorem runConsumer_dequeue (hr : Reachable q s) (hidle : s.consumer = .idle) :
    (step q s .dequeue).bind (runConsumer q 3) =
      some (if s.received.length < s.sent.length then
        { s with
          head := q.index (s.head + 1)
          received := s.received ++ [s.sent[s.received.length]?] }
      else s) := by
  have h := hr.inv
  split_ifs with hval
  · have hne : s.head ≠ s.tail := by
      rw [Ne, h.head_eq_tail_iff]
      omega
    have hslot : s.buffer s.head = s.sent[s.received.length]? := by
      rw [h.head_eq]
      exact h.buffer _ le_rfl hval
    simp only [SPSCQueue.step, hidle, Option.bind_some, runConsumer, Consumer.isIdle, hne,
      Bool.false_eq_true, hslot, ↓reduceIte]
  · have hempty : s.head = s.tail := by
      rw [h.head_eq_tail_iff]
      have := h.received_le
      omega
    simp only [SPSCQueue.step, hidle, Option.bind_some, runConsumer, Consumer.isIdle, hempty,
      if_true, Bool.false_eq_true, if_false]
    -- the state is back as it was: `head_` is `tail_`, and the consumer is idle again
    obtain ⟨tail, head, buffer, producer, consumer, sent, received⟩ := s
    dsimp only at hempty hidle ⊢
    rw [hempty, hidle]

/-- The producer's call, run alone, is the bounded queue's `enqueue` on the values in the ring:
when that one accepts the value, the ring after holds what it gives, and otherwise the state is
unchanged. -/
theorem view_runProducer (hr : Reachable q s) (hidle : s.producer = .idle) (d : α) :
    ∃ s', (step q s (.enqueue d)).bind (runProducer q 3) = some s' ∧ ∃ hr' : Reachable q s',
      hr.inv.view.enqueue d = some hr'.inv.view ∨ (hr.inv.view.enqueue d = none ∧ s' = s) := by
  have h := hr.inv
  have hrun := runProducer_enqueue hr hidle d
  refine ⟨_, hrun, ?_⟩
  -- the call's steps keep the state reachable
  obtain ⟨s₁, h₁, h₂⟩ := Option.bind_eq_some_iff.mp hrun
  have hr' := (hr.step _ h₁).runProducer h₂
  refine ⟨hr', ?_⟩
  split_ifs with hroom
  · left
    rw [BoundedQueue.enqueue_eq_some_iff]
    refine ⟨?_, ?_, rfl⟩
    · show (s.sent.drop s.received.length).length < q.size - 1
      have := h.received_le
      rw [List.length_drop]
      omega
    · show (s.sent ++ [d]).drop s.received.length = s.sent.drop s.received.length ++ [d]
      exact List.drop_append_of_le_length h.received_le
  · right
    refine ⟨BoundedQueue.enqueue_eq_none_iff.mpr fun hlt => hroom ?_, rfl⟩
    have hlt' : (s.sent.drop s.received.length).length < q.size - 1 := hlt
    rw [List.length_drop] at hlt'
    omega

/-- One value sent into a new ring, the producer's call returned. -/
def sentOneRun : List (Action Nat) :=
  [.enqueue 5, .producerStep, .producerStep, .producerStep]

/-- The value received, and the consumer in a second `dequeue` that has loaded `head_`. -/
def consumerBusyRun : List (Action Nat) :=
  sentOneRun ++ [.dequeue, .consumerStep, .consumerStep, .consumerStep, .dequeue]

/-- An `enqueue` into a ring of two slots that one value fills, and into the same ring emptied
again while the consumer is in a `dequeue`. -/
theorem view_runProducer_full_consumerBusy :
    (∃ s, ∃ hrun : run (QueueSize.two) init sentOneRun = some s,
      ∃ s', (step (QueueSize.two) s (.enqueue 6)).bind
          (runProducer (QueueSize.two) 3) = some s' ∧
        ∃ hr' : Reachable (QueueSize.two) s',
          (Reachable.run .init hrun).inv.view.enqueue 6 = some hr'.inv.view ∨
            ((Reachable.run .init hrun).inv.view.enqueue 6 = none ∧ s' = s)) ∧
    (∃ s, ∃ hrun : run (QueueSize.two) init consumerBusyRun = some s,
      ∃ s', (step (QueueSize.two) s (.enqueue 6)).bind
          (runProducer (QueueSize.two) 3) = some s' ∧
        ∃ hr' : Reachable (QueueSize.two) s',
          (Reachable.run .init hrun).inv.view.enqueue 6 = some hr'.inv.view ∨
            ((Reachable.run .init hrun).inv.view.enqueue 6 = none ∧ s' = s)) :=
  have hfull : run (QueueSize.two) init sentOneRun = some _ := rfl
  have hbusy : run (QueueSize.two) init consumerBusyRun = some _ := rfl
  ⟨⟨_, hfull, view_runProducer (Reachable.run .init hfull) rfl 6⟩,
    ⟨_, hbusy, view_runProducer (Reachable.run .init hbusy) rfl 6⟩⟩

/-- The consumer's call, run alone, is the bounded queue's `dequeue` on the values in the ring:
when that one gives a value, the consumer receives it and the ring after holds the rest, and
otherwise the state is unchanged. -/
theorem view_runConsumer (hr : Reachable q s) (hidle : s.consumer = .idle) :
    ∃ s', (step q s .dequeue).bind (runConsumer q 3) = some s' ∧ ∃ hr' : Reachable q s',
      (∃ v, hr.inv.view.dequeue = some (v, hr'.inv.view) ∧ s'.received = s.received ++ [some v]) ∨
        (hr.inv.view.dequeue = none ∧ s' = s) := by
  have h := hr.inv
  have hrun := runConsumer_dequeue hr hidle
  refine ⟨_, hrun, ?_⟩
  -- the call's steps keep the state reachable
  obtain ⟨s₁, h₁, h₂⟩ := Option.bind_eq_some_iff.mp hrun
  have hr' := (hr.step _ h₁).runConsumer h₂
  refine ⟨hr', ?_⟩
  split_ifs with hval
  · left
    refine ⟨s.sent[s.received.length], ?_, ?_⟩
    · rw [BoundedQueue.dequeue_eq_some_iff]
      refine ⟨?_, rfl⟩
      show s.sent.drop s.received.length =
        s.sent[s.received.length] :: (s.sent.drop (s.received ++ _).length)
      rw [List.length_append, List.length_singleton, List.drop_eq_getElem_cons hval]
    · show s.received ++ [s.sent[s.received.length]?] = s.received ++ [some _]
      rw [List.getElem?_eq_getElem hval]
  · right
    refine ⟨BoundedQueue.dequeue_eq_none_iff.mpr ?_, rfl⟩
    show s.sent.drop s.received.length = []
    exact List.drop_eq_nil_of_le (Nat.le_of_not_lt hval)

/-- A `dequeue` after one value was sent receives it. -/
theorem view_runConsumer_sentOne :
    ∃ s, run (QueueSize.two) init sentOneRun = some s ∧
      ∃ hr : Reachable (QueueSize.two) s, ∃ s',
        (step (QueueSize.two) s .dequeue).bind
          (runConsumer (QueueSize.two) 3) = some s' ∧
        ∃ hr' : Reachable (QueueSize.two) s',
          (∃ v, hr.inv.view.dequeue = some (v, hr'.inv.view) ∧
              s'.received = s.received ++ [some v]) ∨
            (hr.inv.view.dequeue = none ∧ s' = s) :=
  have hrun : run (QueueSize.two) init sentOneRun = some _ := rfl
  ⟨_, hrun, Reachable.run .init hrun, view_runConsumer (Reachable.run .init hrun) rfl⟩

end CassandraDriver.SPSCQueue
