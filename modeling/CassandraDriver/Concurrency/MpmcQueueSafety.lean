import CassandraDriver.Concurrency.MpmcQueueInvariant
import CassandraDriver.Data.BoundedQueue

/-!
# What the MPMC queue guarantees

From the invariant of `MpmcQueueInvariant`, over every interleaving of calls:

* the dequeues that returned `true` gave out values that were enqueued, none twice
  (`dequeued_subperm_enqueued`), and once no call is in progress, exactly the first `head_`
  values enqueued (`quiescent_dequeued_perm`);
* `enqueue` returns `false` only when the ring is full, and `dequeue` only when it is empty
  (`enqueue_returns_false_iff`, `dequeue_returns_false_iff`), counting a position claimed by a
  thread that has not finished with it;
* a call that runs alone from a quiescent state returns within five steps and acts on the queue
  as on a FIFO of at most `size_` values (`runAlone_enqueue`, `runAlone_dequeue`).
-/

namespace CassandraDriver.MPMCQueue

variable {τ α : Type} {q : QueueSize} {s : State τ α}

/-- A position of a node before another is a whole lap before it. -/
lemma add_le_of_mod_eq_of_lt {n p x : Nat} (hmod : p % n = x % n) (hlt : p < x) :
    p + n ≤ x := by
  by_contra hfar
  have := eq_of_mod_eq_of_lt_add hmod (by omega) (by omega)
  omega

/-! ### Returning `false` -/

/-- The node of a position `pos` not past `tail_` has a sequence number below `pos` exactly when
`pos` is `tail_` and the ring is full: `size_` positions claimed and not dequeued, or the node's
previous position claimed by a consumer that has not released it. -/
lemma Inv.seq_lt_iff_full (h : Inv q s) {pos : Nat} (hpos : pos ≤ s.tail) :
    s.seq (pos % q.size) < pos ↔ pos = s.tail ∧ (s.tail = s.head + q.size ∨
      (q.size ≤ s.tail ∧ HeldAt Phase.reading s.phase (s.tail - q.size))) := by
  have hn := q.two_le
  have hlap := h.tail_le
  have hht := h.head_le
  obtain ⟨p, hmod, hslot⟩ := h.slot_of pos
  constructor
  · intro hlt
    cases hslot with
    | free hs hh =>
      rw [hmod] at hs
      have := add_le_of_mod_eq_of_lt hmod (by omega)
      exact ⟨by omega, .inl (by omega)⟩
    | full hs ht hl hd hc =>
      rw [hmod] at hs
      have := add_le_of_mod_eq_of_lt hmod (by omega)
      refine ⟨by omega, ?_⟩
      -- the node's last value is dequeued or being read
      by_cases hp : p < s.head
      · have hp' : p = s.tail - q.size := by omega
        exact .inr ⟨by omega, hp' ▸ hc.mp hp⟩
      · exact .inl (by omega)
  · rintro ⟨rfl, hfull | ⟨hle, t', ht'⟩⟩
    · -- the node of `tail_` is at a position a lap before it
      have hp : p < s.tail := by
        cases hslot with
        | free _ _ hl => omega
        | full _ ht => exact ht
      have := add_le_of_mod_eq_of_lt hmod hp
      rcases hslot.seq_eq with hs | hs <;> rw [hmod] at hs <;> omega
    · have hseq := h.seq_of_reading ht'
      have hmod' : (s.tail - q.size) % q.size = s.tail % q.size := by
        conv_rhs => rw [show s.tail = s.tail - q.size + q.size by omega]
        rw [Nat.add_mod_right]
      rw [hmod'] at hseq
      omega

/-- The node of a position `pos` not past `head_` has a sequence number below `pos + 1`
exactly when `pos` is `head_` and the ring is empty: no position claimed past `head_`, or the
one at `head_` claimed by a producer that has not published it. -/
lemma Inv.seq_lt_succ_iff_empty (h : Inv q s) {pos : Nat} (hpos : pos ≤ s.head) :
    s.seq (pos % q.size) < pos + 1 ↔
      pos = s.head ∧ (s.head = s.tail ∨ HeldAt Phase.writing s.phase s.head) := by
  have hlap := h.tail_le
  have hht := h.head_le
  obtain ⟨p, hmod, hslot⟩ := h.slot_of pos
  constructor
  · intro hlt
    cases hslot with
    | free hs hh hl hc =>
      rw [hmod] at hs
      have hp : p = pos := by omega
      subst hp
      refine ⟨by omega, ?_⟩
      -- the node of `head_` is free: claimed by a producer, or not claimed at all
      by_cases hpt : p < s.tail
      · exact .inr (by rw [← show p = s.head by omega]; exact hc.mp hpt)
      · exact .inl (by omega)
    | full hs ht hl =>
      rw [hmod] at hs
      have := add_le_of_mod_eq_of_lt hmod (by omega)
      exact ⟨by omega, .inl (by omega)⟩
  · rintro ⟨rfl, hempty | ⟨t', ht'⟩⟩
    · cases hslot with
      | free hs hh hl =>
        rw [hmod] at hs
        have := eq_of_mod_eq_of_lt_add hmod (by omega) (by omega)
        omega
      | full hs ht hl =>
        rw [hmod] at hs
        have := add_le_of_mod_eq_of_lt hmod (by omega)
        omega
    · have := h.seq_of_writing ht'
      omega

section Returns

variable [DecidableEq τ]

/-- A producer's `enqueue` returns `false`, going from comparing the node's sequence number to
idle, exactly when its position is `tail_` and the ring is full. A position the producer loaded
before other producers moved `tail_` on never makes it return `false`. -/
theorem enqueue_returns_false_iff (hr : Reachable q s) {t : τ} {d : α} {pos : Nat} (b : Bool)
    (hph : s.phase t = .enqLoadSeq d pos) :
    step q s (.next t b) = some (s.setPhase t .idle) ↔
      pos = s.tail ∧ (s.tail = s.head + q.size ∨
        (q.size ≤ s.tail ∧ HeldAt Phase.reading s.phase (s.tail - q.size))) := by
  have h := hr.inv
  have hpos : pos ≤ s.tail := by
    have := h.phase t
    rwa [hph] at this
  rw [← h.seq_lt_iff_full hpos]
  simp only [MPMCQueue.step, hph, QueueSize.index_eq_mod]
  split_ifs with hzero hneg <;>
    simp only [Option.some.injEq, State.setPhase_inj, reduceCtorEq, true_iff, false_iff] <;>
    omega

/-- Two `enqueue`s by one thread into a queue of two nodes, and a third that has loaded
`tail_`. -/
def twoQueuedRun : List (Action Unit Nat) :=
  [.enqueue () 1] ++ List.replicate 5 (.next () false) ++ [.enqueue () 2] ++
    List.replicate 5 (.next () false) ++ [.enqueue () 3, .next () false]

/-- The third `enqueue` finds both nodes full and returns `false`. -/
theorem enqueue_returns_false_iff_twoQueued :
    ∃ s, run (QueueSize.two) init twoQueuedRun = some s ∧
      step (QueueSize.two) s (.next () false) = some (s.setPhase () .idle) ∧
      s.tail = s.head + (QueueSize.two).size :=
  have hrun : run (QueueSize.two) init twoQueuedRun = some _ := rfl
  ⟨_, hrun, (enqueue_returns_false_iff (Reachable.run .init hrun) false rfl).mpr ⟨rfl, .inl rfl⟩,
    rfl⟩

/-- A consumer's `dequeue` returns `false` exactly when its position is `head_` and the ring is
empty. -/
theorem dequeue_returns_false_iff (hr : Reachable q s) {t : τ} {pos : Nat} (b : Bool)
    (hph : s.phase t = .deqLoadSeq pos) :
    step q s (.next t b) = some (s.setPhase t .idle) ↔
      pos = s.head ∧ (s.head = s.tail ∨ HeldAt Phase.writing s.phase s.head) := by
  have h := hr.inv
  have hpos : pos ≤ s.head := by
    have := h.phase t
    rwa [hph] at this
  rw [← h.seq_lt_succ_iff_empty hpos]
  simp only [MPMCQueue.step, hph, QueueSize.index_eq_mod]
  split_ifs with hzero hneg <;>
    simp only [Option.some.injEq, State.setPhase_inj, reduceCtorEq, true_iff, false_iff] <;>
    omega

/-- Thread `true` claims position 0 and has not written it yet; thread `false` then begins a
`dequeue` and loads `head_`. -/
def claimedRun : List (Action Bool Nat) :=
  [.enqueue true 7, .next true false, .next true false, .next true false, .dequeue false,
    .next false false]

/-- The `dequeue` returns `false` though a position past `head_` is claimed: its producer has not
published it. -/
theorem dequeue_returns_false_iff_claimed :
    ∃ s, run (QueueSize.two) init claimedRun = some s ∧
      step (QueueSize.two) s (.next false false) = some (s.setPhase false .idle) ∧
      s.head < s.tail :=
  have hrun : run (QueueSize.two) init claimedRun = some _ := rfl
  ⟨_, hrun, (dequeue_returns_false_iff (Reachable.run .init hrun) false rfl).mpr
    ⟨rfl, .inr ⟨true, rfl⟩⟩, by decide⟩

end Returns

/-! ### What the dequeues gave out -/

/-- The values at the positions `0, …, n - 1` of a list, as options. -/
lemma map_getElem?_range {l : List α} {n : Nat} (hn : n ≤ l.length) :
    (List.range n).map (fun p => l[p]?) = (l.take n).map some := by
  apply List.ext_getElem (by simp [hn])
  intro i h₁ h₂
  simp only [List.length_map, List.length_range] at h₁
  simp [List.getElem?_eq_getElem (show i < l.length by omega)]

/-- The values of the dequeues that returned are those logged at their positions. -/
lemma Inv.results_snd (h : Inv q s) :
    s.results.map Prod.snd = (s.results.map Prod.fst).map (fun p => s.log[p]?) := by
  rw [List.map_map]
  exact List.map_congr_left fun r hr => (h.results r hr).2.1

/-- Over every interleaving, the dequeues that returned `true` gave out values that were
enqueued, each at most as often as it was: none invented, none given out twice; and each gave
out the value written for the position it claimed. -/
theorem dequeued_subperm_enqueued [DecidableEq τ] (hr : Reachable q s) :
    (s.results.map Prod.snd).Subperm (s.log.map some) ∧ ∀ r ∈ s.results, r.2 = s.log[r.1]? := by
  have h := hr.inv
  refine ⟨?_, fun r hr' => (h.results r hr').2.1⟩
  have hsub : (s.results.map Prod.fst).Subperm (List.range s.log.length) :=
    h.results_nodup.subperm fun p hp => by
      obtain ⟨r, hr', rfl⟩ := List.mem_map.mp hp
      have := h.head_le
      have := h.tail_eq
      exact List.mem_range.mpr (by have := (h.results r hr').1; omega)
  obtain ⟨l, hperm, hsl⟩ := hsub
  have hlog : s.log.map some = (List.range s.log.length).map fun p => s.log[p]? := by
    rw [map_getElem?_range le_rfl, List.take_length]
  rw [h.results_snd, hlog]
  exact ⟨l.map _, hperm.map _, hsl.map _⟩

/-- Thread `true` enqueues 7 while thread `false` dequeues, their steps interleaved, until both
calls return. -/
def handOverRun : List (Action Bool Nat) :=
  [.enqueue true 7, .dequeue false, .next true false, .next false false] ++
    List.replicate 4 (.next true false) ++ List.replicate 4 (.next false false)

/-- The `dequeue` gave out the value enqueued. -/
theorem dequeued_subperm_enqueued_handOver :
    ∃ s, run (QueueSize.two) init handOverRun = some s ∧
      (s.results.map Prod.snd).Subperm (s.log.map some) ∧ ∀ r ∈ s.results, r.2 = s.log[r.1]? :=
  have hrun : run (QueueSize.two) init handOverRun = some _ := rfl
  ⟨_, hrun, dequeued_subperm_enqueued (Reachable.run .init hrun)⟩

/-- No thread is in the middle of a call. -/
def Quiescent (s : State τ α) : Prop := ∀ t, s.phase t = .idle

lemma Quiescent.not_heldAt (hq : Quiescent s) {role : Phase α → Option Nat}
    (hrole : role .idle = none) (p : Nat) : ¬HeldAt role s.phase p := fun ⟨t, ht⟩ => by
  rw [hq t, hrole] at ht
  cases ht

/-- When no call is in progress, the dequeues that returned `true` gave out exactly the first
`head_` values enqueued, each once: no value was lost or duplicated. -/
theorem quiescent_dequeued_perm [DecidableEq τ] (hr : Reachable q s) (hq : Quiescent s) :
    (s.results.map Prod.snd).Perm ((s.log.take s.head).map some) := by
  have h := hr.inv
  -- the positions dequeued are `0, …, head_ - 1`, each once
  have hpos : (s.results.map Prod.fst).Perm (List.range s.head) := by
    rw [List.perm_ext_iff_of_nodup h.results_nodup List.nodup_range]
    intro p
    rw [List.mem_range]
    constructor
    · intro hp
      obtain ⟨r, hr', rfl⟩ := List.mem_map.mp hp
      exact (h.results r hr').1
    · intro hp
      exact h.results_complete p hp (hq.not_heldAt rfl p)
  rw [h.results_snd, ← map_getElem?_range (by have := h.head_le; have := h.tail_eq; omega)]
  exact hpos.map _

/-- Once both calls have returned, the one value enqueued was dequeued, once. -/
theorem quiescent_dequeued_perm_handOver :
    ∃ s, run (QueueSize.two) init handOverRun = some s ∧
      (s.results.map Prod.snd).Perm ((s.log.take s.head).map some) :=
  have hrun : run (QueueSize.two) init handOverRun = some _ := rfl
  ⟨_, hrun, quiescent_dequeued_perm (Reachable.run .init hrun) fun t => by cases t <;> rfl⟩

/-! ### A call that runs alone -/

/-- The values in the queue, oldest first: those of the positions claimed and not dequeued, as a
queue of at most `size_` values. -/
def Inv.view (h : Inv q s) : BoundedQueue α :=
  ⟨s.log.drop s.head, q.size, by
    rw [List.length_drop, ← h.tail_eq]
    have := h.tail_le
    omega⟩

/-- In a quiescent state the nodes hold the lap after `head_`: the positions up to `tail_` are
full with their values, the others free. -/
lemma Inv.quiescent_node (h : Inv q s) (hq : Quiescent s) {x : Nat} (hx₁ : s.head ≤ x)
    (hx₂ : x < s.head + q.size) :
    (x < s.tail → s.seq (x % q.size) = x + 1 ∧ s.data (x % q.size) = s.log[x]?) ∧
      (s.tail ≤ x → s.seq (x % q.size) = x) := by
  have hlap := h.tail_le
  obtain ⟨p, hmod, hslot⟩ := h.slot_of x
  cases hslot with
  | free hs hh hl hc =>
    have htp : s.tail ≤ p := Nat.le_of_not_lt fun hp => hq.not_heldAt rfl p (hc.mp hp)
    obtain rfl := eq_of_mod_eq_of_lt_add hmod (by omega) (by omega)
    exact ⟨fun hlt => absurd hlt (by omega), fun _ => hmod ▸ hs⟩
  | full hs ht hl hd hc =>
    have hhp : s.head ≤ p := Nat.le_of_not_lt fun hp => hq.not_heldAt rfl p (hc.mp hp)
    obtain rfl := eq_of_mod_eq_of_lt_add hmod (by omega) (by omega)
    exact ⟨fun _ => ⟨hs, hd⟩, fun hle => absurd ht (by omega)⟩

variable [DecidableEq τ]

/-- A call of `enqueue` that runs alone from a quiescent state returns within five steps. With
fewer than `size_` values in the queue it claims `tail_`, writes its value and publishes it;
otherwise it returns `false` and leaves the queue as it was. -/
theorem runAlone_enqueue (hr : Reachable q s) (hq : Quiescent s) (t : τ) (d : α) :
    (step q s (.enqueue t d)).bind (runAlone q t 5) =
      some (if s.tail < s.head + q.size then
        { s with
          tail := s.tail + 1
          seq := Function.update s.seq (s.tail % q.size) (s.tail + 1)
          data := Function.update s.data (s.tail % q.size) (some d)
          log := s.log ++ [d] }
      else s) := by
  have h := hr.inv
  have hidle : Function.update s.phase t .idle = s.phase :=
    Function.update_eq_self_iff.mpr (hq t).symm
  have hsteps := @runAlone_succ_of_isIdle_eq_false
  split_ifs with hroom
  · have hseq := (h.quiescent_node hq h.head_le hroom).2 le_rfl
    simp only [MPMCQueue.step, hq t, Phase.isIdle, if_true, Option.bind_some, hsteps,
      State.setPhase_self, State.setPhase_tail, State.setPhase_seq, State.setPhase_head,
      State.setPhase_data, State.setPhase_log, State.setPhase_results, State.setPhase_setPhase,
      State.setPhase_phase, QueueSize.index_eq_mod, hseq, sub_self, and_self,
      Function.update_self, Function.update_idem, hidle, runAlone_of_idle]
  · -- the ring is full: the node of `tail_` is a lap behind
    have hfull : s.seq (s.tail % q.size) < s.tail :=
      (h.seq_lt_iff_full le_rfl).mpr ⟨rfl, .inl (by have := h.tail_le; omega)⟩
    have hne : ¬((s.seq (s.tail % q.size) : Int) - s.tail = 0) := by omega
    have hneg : (s.seq (s.tail % q.size) : Int) - s.tail < 0 := by omega
    simp only [MPMCQueue.step, hq t, Phase.isIdle, if_true, Option.bind_some, hsteps,
      State.setPhase_self, State.setPhase_tail, State.setPhase_seq, State.setPhase_setPhase,
      QueueSize.index_eq_mod, hne, hneg, if_false, runAlone_of_idle]
    simp only [State.setPhase, hidle]

/-- A call of `dequeue` that runs alone from a quiescent state returns within five steps. With
a value in the queue it claims `head_`, returns the value logged there and frees the node for
the next lap; otherwise it returns `false` and leaves the queue as it was. -/
theorem runAlone_dequeue (hr : Reachable q s) (hq : Quiescent s) (t : τ) :
    (step q s (.dequeue t)).bind (runAlone q t 5) =
      some (if s.head < s.tail then
        { s with
          head := s.head + 1
          seq := Function.update s.seq (s.head % q.size) (s.head + q.size)
          results := s.results ++ [(s.head, s.log[s.head]?)] }
      else s) := by
  have h := hr.inv
  have hidle : Function.update s.phase t .idle = s.phase :=
    Function.update_eq_self_iff.mpr (hq t).symm
  have hsteps := @runAlone_succ_of_isIdle_eq_false
  have hn := q.two_le
  split_ifs with hval
  · obtain ⟨hseq, hdata⟩ :=
      (h.quiescent_node hq le_rfl (by omega)).1 hval
    have hlap : s.head + (q.size - 1) + 1 = s.head + q.size := by omega
    simp only [MPMCQueue.step, hq t, Phase.isIdle, if_true, Option.bind_some, hsteps,
      State.setPhase_self, State.setPhase_head, State.setPhase_seq, State.setPhase_tail,
      State.setPhase_data, State.setPhase_log, State.setPhase_results, State.setPhase_setPhase,
      State.setPhase_phase, QueueSize.index_eq_mod, hseq, hdata, Nat.cast_add, Nat.cast_one,
      sub_self, and_self, hlap, Function.update_self, Function.update_idem, hidle,
      runAlone_of_idle]
  · -- the ring is empty: the node of `head_` is not yet full
    have hempty : s.seq (s.head % q.size) < s.head + 1 :=
      (h.seq_lt_succ_iff_empty le_rfl).mpr ⟨rfl, .inl (by have := h.head_le; omega)⟩
    have hne : ¬((s.seq (s.head % q.size) : Int) - ((s.head + 1 : Nat) : Int) = 0) := by omega
    have hneg : (s.seq (s.head % q.size) : Int) - ((s.head + 1 : Nat) : Int) < 0 := by omega
    simp only [MPMCQueue.step, hq t, Phase.isIdle, if_true, Option.bind_some, hsteps,
      State.setPhase_self, State.setPhase_head, State.setPhase_seq, State.setPhase_setPhase,
      QueueSize.index_eq_mod, hne, hneg, if_false, runAlone_of_idle]
    simp only [State.setPhase, hidle]

/-- A call of `enqueue` run alone from a quiescent state is the bounded queue's `enqueue` on the
values in the queue: when that one accepts the value, the queue after holds what it gives, and
otherwise the state is unchanged. -/
theorem view_runAlone_enqueue (hr : Reachable q s) (hq : Quiescent s) (t : τ) (d : α) :
    ∃ s', (step q s (.enqueue t d)).bind (runAlone q t 5) = some s' ∧
      ∃ hr' : Reachable q s', Quiescent s' ∧
        (hr.inv.view.enqueue d = some hr'.inv.view ∨ (hr.inv.view.enqueue d = none ∧ s' = s)) := by
  have h := hr.inv
  have hrun := runAlone_enqueue hr hq t d
  refine ⟨_, hrun, ?_⟩
  -- the call's steps keep the state reachable
  obtain ⟨s₁, h₁, h₂⟩ := Option.bind_eq_some_iff.mp hrun
  have hr' := (hr.step _ h₁).runAlone h₂
  refine ⟨hr', ?_⟩
  split_ifs with hroom
  · refine ⟨hq, .inl ?_⟩
    rw [BoundedQueue.enqueue_eq_some_iff]
    refine ⟨?_, ?_, rfl⟩
    · show (s.log.drop s.head).length < q.size
      have := h.head_le
      rw [List.length_drop, ← h.tail_eq]
      omega
    · show (s.log ++ [d]).drop s.head = s.log.drop s.head ++ [d]
      exact List.drop_append_of_le_length (h.tail_eq ▸ h.head_le)
  · refine ⟨hq, .inr ⟨BoundedQueue.enqueue_eq_none_iff.mpr fun hlt => hroom ?_, rfl⟩⟩
    have hlt' : (s.log.drop s.head).length < q.size := hlt
    rw [List.length_drop, ← h.tail_eq] at hlt'
    omega

/-- One `enqueue` by one thread, run to its return. -/
def oneQueuedRun : List (Action Unit Nat) :=
  .enqueue () 7 :: List.replicate 5 (.next () false)

/-- Two `enqueue`s by one thread, each run to its return: the ring of two nodes is then full. -/
def fullRun : List (Action Unit Nat) :=
  oneQueuedRun ++ .enqueue () 8 :: List.replicate 5 (.next () false)

/-- An `enqueue` run alone after one value was queued, and after two, when the ring is full. -/
theorem view_runAlone_enqueue_queued :
    (∃ s, ∃ hrun : run (QueueSize.two) init oneQueuedRun = some s,
      ∃ s', (step (QueueSize.two) s (.enqueue () 9)).bind
          (runAlone (QueueSize.two) () 5) = some s' ∧
        ∃ hr' : Reachable (QueueSize.two) s', Quiescent s' ∧
          ((Reachable.run .init hrun).inv.view.enqueue 9 = some hr'.inv.view ∨
            ((Reachable.run .init hrun).inv.view.enqueue 9 = none ∧ s' = s))) ∧
    (∃ s, ∃ hrun : run (QueueSize.two) init fullRun = some s,
      ∃ s', (step (QueueSize.two) s (.enqueue () 9)).bind
          (runAlone (QueueSize.two) () 5) = some s' ∧
        ∃ hr' : Reachable (QueueSize.two) s', Quiescent s' ∧
          ((Reachable.run .init hrun).inv.view.enqueue 9 = some hr'.inv.view ∨
            ((Reachable.run .init hrun).inv.view.enqueue 9 = none ∧ s' = s))) :=
  have hone : run (QueueSize.two) init oneQueuedRun = some _ := rfl
  have htwo : run (QueueSize.two) init fullRun = some _ := rfl
  ⟨⟨_, hone, view_runAlone_enqueue (Reachable.run .init hone) (fun _ => rfl) () 9⟩,
    ⟨_, htwo, view_runAlone_enqueue (Reachable.run .init htwo) (fun _ => rfl) () 9⟩⟩

/-- A call of `dequeue` run alone from a quiescent state is the bounded queue's `dequeue` on the
values in the queue: when that one gives a value, the dequeue returns it and the queue after
holds the rest, and otherwise the state is unchanged. -/
theorem view_runAlone_dequeue (hr : Reachable q s) (hq : Quiescent s) (t : τ) :
    ∃ s', (step q s (.dequeue t)).bind (runAlone q t 5) = some s' ∧
      ∃ hr' : Reachable q s', Quiescent s' ∧
        ((∃ v, hr.inv.view.dequeue = some (v, hr'.inv.view) ∧
            s'.results = s.results ++ [(s.head, some v)]) ∨
          (hr.inv.view.dequeue = none ∧ s' = s)) := by
  have h := hr.inv
  have hrun := runAlone_dequeue hr hq t
  refine ⟨_, hrun, ?_⟩
  -- the call's steps keep the state reachable
  obtain ⟨s₁, h₁, h₂⟩ := Option.bind_eq_some_iff.mp hrun
  have hr' := (hr.step _ h₁).runAlone h₂
  refine ⟨hr', ?_⟩
  split_ifs with hval
  · have hlen : s.head < s.log.length := h.tail_eq ▸ hval
    refine ⟨hq, .inl ⟨s.log[s.head], ?_, ?_⟩⟩
    · rw [BoundedQueue.dequeue_eq_some_iff]
      refine ⟨?_, rfl⟩
      show s.log.drop s.head = s.log[s.head] :: s.log.drop (s.head + 1)
      exact List.drop_eq_getElem_cons hlen
    · show s.results ++ [(s.head, s.log[s.head]?)] = s.results ++ [(s.head, some _)]
      rw [List.getElem?_eq_getElem hlen]
  · refine ⟨hq, .inr ⟨BoundedQueue.dequeue_eq_none_iff.mpr ?_, rfl⟩⟩
    show s.log.drop s.head = []
    exact List.drop_eq_nil_of_le (by have := h.head_le; have := h.tail_eq; omega)

/-- A `dequeue` after one `enqueue` takes its value. -/
theorem view_runAlone_dequeue_oneQueued :
    ∃ s, run (QueueSize.two) init oneQueuedRun = some s ∧
      ∃ hr : Reachable (QueueSize.two) s, ∃ s',
        (step (QueueSize.two) s (.dequeue ())).bind
          (runAlone (QueueSize.two) () 5) = some s' ∧
        ∃ hr' : Reachable (QueueSize.two) s', Quiescent s' ∧
          ((∃ v, hr.inv.view.dequeue = some (v, hr'.inv.view) ∧
              s'.results = s.results ++ [(s.head, some v)]) ∨
            (hr.inv.view.dequeue = none ∧ s' = s)) :=
  have hrun : run (QueueSize.two) init oneQueuedRun = some _ := rfl
  ⟨_, hrun, Reachable.run .init hrun, view_runAlone_dequeue (Reachable.run .init hrun)
    (fun _ => rfl) ()⟩

end CassandraDriver.MPMCQueue
