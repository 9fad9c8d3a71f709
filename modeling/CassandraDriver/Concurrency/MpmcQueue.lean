import Mathlib

/-!
# The bounded MPMC queue

`MPMCQueue<T>` of `mpmc_queue.hpp` is a bounded multi-producer multi-consumer queue whose nodes
carry sequence numbers, the one through which application threads hand requests to the session thread
(`Session::execute`, `Session::on_execute`). It is a ring of `size_` nodes, each a value and a
sequence number, and two counters: producers claim positions at `tail_`, consumers at `head_`.
Position `pos` lives in node `pos & mask_`. A node whose sequence number is `pos` is free for the
producer of `pos`, which claims it by a compare-exchange of `tail_` from `pos` to `pos + 1`,
writes its value and stores `pos + 1`; the node then holds the value for the consumer of `pos`,
which claims it by a compare-exchange of `head_`, reads the value and stores `pos + size_`, which
frees the node for the producer one lap later.

Each access to `tail_`, `head_` or a node is one atomic step here, and the steps of the threads
interleave in any order: the executions are the sequentially consistent ones. The code orders
its accesses with relaxed, acquire and release atomics; what that weaker ordering allows beyond
the interleavings is not modelled. A `compare_exchange_weak` may fail spuriously; a step says
whether it does. The `size_t` counters are natural numbers: they wrap only after `2^64` claims.

Besides the fields of the queue, the state records what the proofs speak of and no step reads:
`log`, the value of each claimed position, in the order the positions were claimed, and
`results`, the position and the value of each dequeue that returned `true`.
-/

namespace CassandraDriver

/-! ### `next_pow_2` -/

/-- The loop of `next_pow_2` (`utils.hpp`) on `size_t`: while `next < num`, `next = 1 << i++`.
Shifting the 64-bit `1` by `64` or more is undefined behaviour, `none` here. `fuel` bounds the
rounds; each round that goes on raises `i`, so 65 of them are enough. -/
def nextPow2Loop (num : Nat) : Nat → Nat → Nat → Option Nat
  | 0, _, _ => none
  | fuel + 1, next, i =>
    if next < num then
      if i < 64 then nextPow2Loop num fuel (1 <<< i) (i + 1) else none
    else some next

/-- `next_pow_2(num)` for a `size_t` `num`: the loop from `next = 2` and `i = 0`. -/
def nextPow2 (num : Nat) : Option Nat := nextPow2Loop num 65 2 0

/-- After its first round the loop holds `2 ^ j` with `i = j + 1`; from there, while the shifts
stay below 64, it stops at the first power of two from `2 ^ j` on that is at least `num`. -/
lemma nextPow2Loop_pow {num : Nat} (hclog : Nat.clog 2 num ≤ 63) :
    ∀ (fuel j : Nat), Nat.clog 2 num ≤ j + fuel → j ≤ 63 →
      nextPow2Loop num (fuel + 1) (2 ^ j) (j + 1) = some (2 ^ max j (Nat.clog 2 num)) := by
  intro fuel
  -- one round of the loop per step of the induction, `j` climbing
  induction fuel with
  | zero =>
    intro j h _
    have hle : num ≤ 2 ^ j := (Nat.clog_le_iff_le_pow (by norm_num)).mp (by omega)
    rw [nextPow2Loop, if_neg (by omega), max_eq_left (by omega)]
  | succ fuel ih =>
    intro j h hj
    rw [nextPow2Loop]
    split_ifs with hlt hshift
    · have hclog' : j < Nat.clog 2 num := (Nat.lt_clog_iff_pow_lt (by norm_num)).mpr hlt
      rw [Nat.one_shiftLeft, ih (j + 1) (by omega) (by omega)]
      congr 2
      omega
    · have hclog' : j < Nat.clog 2 num := (Nat.lt_clog_iff_pow_lt (by norm_num)).mpr hlt
      omega
    · have hclog' : Nat.clog 2 num ≤ j := Nat.clog_le_of_le_pow (by omega)
      rw [max_eq_left hclog']

/-- Above `2 ^ 63` no power of two the loop can shift to reaches `num`: it comes to `1 << 64`. -/
lemma nextPow2Loop_of_lt {num : Nat} (hnum : 2 ^ 63 < num) :
    ∀ (fuel j : Nat), j ≤ 63 → nextPow2Loop num fuel (2 ^ j) (j + 1) = none := by
  intro fuel
  induction fuel with
  | zero => intro j _; rfl
  | succ fuel ih =>
    intro j hj
    have hpow : 2 ^ j ≤ 2 ^ 63 := Nat.pow_le_pow_right (by norm_num) hj
    rw [nextPow2Loop, if_pos (by omega)]
    split_ifs with hshift
    · rw [Nat.one_shiftLeft]
      exact ih (j + 1) (by omega)
    · rfl

/-- For a `num` of at most `2 ^ 63`, `next_pow_2(num)` is the least power of two that is at
least `num` and at least 2. -/
lemma nextPow2_of_le {num : Nat} (hnum : num ≤ 2 ^ 63) :
    nextPow2 num = some (max 2 (2 ^ Nat.clog 2 num)) := by
  have hclog : Nat.clog 2 num ≤ 63 := Nat.clog_le_of_le_pow hnum
  unfold nextPow2
  by_cases hsmall : num ≤ 2
  · have hclog₁ : Nat.clog 2 num ≤ 1 := Nat.clog_le_of_le_pow (by omega)
    have hpow : 2 ^ Nat.clog 2 num ≤ 2 :=
      (Nat.pow_le_pow_right (by norm_num) hclog₁).trans (by norm_num)
    rw [max_eq_left hpow, nextPow2Loop, if_neg (by omega)]
  · -- the first round sets `next = 1 << 0`; the loop then climbs through the powers of two
    have htwo : 2 ≤ 2 ^ Nat.clog 2 num :=
      calc 2 ≤ num := by omega
        _ ≤ 2 ^ Nat.clog 2 num := Nat.le_pow_clog (by norm_num) _
    rw [nextPow2Loop, if_pos (by omega), if_pos (by norm_num), Nat.one_shiftLeft,
      nextPow2Loop_pow hclog 63 0 (by omega) (by omega), max_eq_right (Nat.zero_le _),
      max_eq_right htwo]

/-- Above `2 ^ 63`, `next_pow_2(num)` comes to shifting `1` by 64. -/
lemma nextPow2_of_lt {num : Nat} (hnum : 2 ^ 63 < num) : nextPow2 num = none := by
  unfold nextPow2
  rw [nextPow2Loop, if_pos (by omega), if_pos (by norm_num), Nat.one_shiftLeft]
  exact nextPow2Loop_of_lt hnum 64 0 (by omega)

/-- `next_pow_2(num)` returns exactly for a `num` of at most `2 ^ 63`, and then the least power
of two that is at least `num` and at least 2; above, its loop shifts a `size_t` by 64, which is
undefined. -/
theorem nextPow2_eq_some_iff (num n : Nat) :
    nextPow2 num = some n ↔ num ≤ 2 ^ 63 ∧ n = max 2 (2 ^ Nat.clog 2 num) := by
  by_cases hnum : num ≤ 2 ^ 63
  · rw [nextPow2_of_le hnum, Option.some.injEq]
    exact ⟨fun h => ⟨hnum, h.symm⟩, fun h => h.2.symm⟩
  · rw [nextPow2_of_lt (by omega)]
    exact iff_of_false (fun h => by cases h) (fun h => hnum h.1)

/-! ### The size of a queue -/

/-- The number of nodes of a queue, `size_`: a power of two, and at least 2. -/
structure QueueSize where
  size : Nat
  exists_pow : ∃ k, size = 2 ^ k
  two_le : 2 ≤ size

/-- `size_(next_pow_2(size))`, as both queues' constructors set it, for a requested size that
`next_pow_2` returns on. -/
def QueueSize.ofRequested (num : Nat) (h : num ≤ 2 ^ 63) : QueueSize where
  size := (nextPow2 num).get (by rw [nextPow2_of_le h]; rfl)
  exists_pow := by
    simp only [nextPow2_of_le h, Option.get_some]
    rcases le_total 2 (2 ^ Nat.clog 2 num) with h | h
    · exact ⟨_, max_eq_right h⟩
    · exact ⟨1, max_eq_left h⟩
  two_le := by
    simp only [nextPow2_of_le h, Option.get_some]
    exact le_max_left _ _

/-- A queue asked for two nodes. -/
def QueueSize.two : QueueSize := .ofRequested 2 (by norm_num)

namespace QueueSize

variable (q : QueueSize)

lemma size_pos : 0 < q.size := by
  have := q.two_le
  omega

/-- `pos & mask_`, with `mask_ = size_ - 1`: the node of a position. -/
def index (pos : Nat) : Nat := pos &&& (q.size - 1)

/-- The mask takes the position modulo the size, a power of two. -/
@[simp] lemma index_eq_mod (pos : Nat) : q.index pos = pos % q.size := by
  obtain ⟨k, hk⟩ := q.exists_pow
  rw [index, hk, Nat.and_two_pow_sub_one_eq_mod]

end QueueSize

/-- Two positions of one node less than a lap apart are the same position. -/
lemma eq_of_mod_eq_of_lt_add {n p q : Nat} (hmod : p % n = q % n) (hp : p < q + n)
    (hq : q < p + n) : p = q := by
  have h₁ := Nat.sub_mod_eq_zero_of_mod_eq hmod
  have h₂ := Nat.sub_mod_eq_zero_of_mod_eq hmod.symm
  rw [Nat.mod_eq_of_lt (by omega)] at h₁ h₂
  omega

namespace MPMCQueue

/-- Where a thread is in a call. `pos` is the position the thread works on; `enqLoadTail` is
both the entry of `enqueue` and the reload after `dif > 0`, and `deqLoadHead` likewise. -/
inductive Phase (α : Type)
  | idle
  | enqLoadTail (data : α)
  | enqLoadSeq (data : α) (pos : Nat)
  | enqCas (data : α) (pos : Nat)
  | enqWrite (data : α) (pos : Nat)
  | enqPublish (pos : Nat)
  | deqLoadHead
  | deqLoadSeq (pos : Nat)
  | deqCas (pos : Nat)
  | deqRead (pos : Nat)
  | deqRelease (pos : Nat) (data : Option α)
  deriving DecidableEq, Repr

/-- The thread is in no call. -/
def Phase.isIdle {α : Type} : Phase α → Bool
  | .idle => true
  | _ => false

lemma Phase.eq_idle_of_isIdle {α : Type} {ph : Phase α} (h : ph.isIdle = true) : ph = .idle := by
  cases ph
  case idle => rfl
  all_goals cases h

/-- The position a producer has claimed and not yet published. -/
def Phase.writing {α : Type} : Phase α → Option Nat
  | .enqWrite _ pos | .enqPublish pos => some pos
  | _ => none

/-- The position a consumer has claimed and not yet released. -/
def Phase.reading {α : Type} : Phase α → Option Nat
  | .deqRead pos | .deqRelease pos _ => some pos
  | _ => none

/-- The queue shared by the threads `τ`. A node's value is `none` until a producer writes it:
`new Node[size_]` leaves it indeterminate. `log` and `results` are ghost state. -/
structure State (τ α : Type) where
  tail : Nat
  head : Nat
  seq : Nat → Nat
  data : Nat → Option α
  phase : τ → Phase α
  log : List α
  results : List (Nat × Option α)

/-- A thread calls `enqueue` or `dequeue`, or takes its next atomic step; `spurious` says
whether a `compare_exchange_weak` taken in that step fails spuriously. -/
inductive Action (τ α : Type)
  | enqueue (thread : τ) (data : α)
  | dequeue (thread : τ)
  | next (thread : τ) (spurious : Bool)

variable {τ α : Type} [DecidableEq τ]

/-- A new queue: both counters at zero and the sequence number of node `i` at `i`. -/
def init : State τ α where
  tail := 0
  head := 0
  seq := fun i => i
  data := fun _ => none
  phase := fun _ => .idle
  log := []
  results := []

/-- Move one thread to another phase. -/
def State.setPhase (s : State τ α) (t : τ) (p : Phase α) : State τ α :=
  { s with phase := Function.update s.phase t p }

section SetPhase

variable (s : State τ α) (t : τ) (p : Phase α)

@[simp] lemma State.setPhase_tail : (s.setPhase t p).tail = s.tail := rfl
@[simp] lemma State.setPhase_head : (s.setPhase t p).head = s.head := rfl
@[simp] lemma State.setPhase_seq : (s.setPhase t p).seq = s.seq := rfl
@[simp] lemma State.setPhase_data : (s.setPhase t p).data = s.data := rfl
@[simp] lemma State.setPhase_log : (s.setPhase t p).log = s.log := rfl
@[simp] lemma State.setPhase_results : (s.setPhase t p).results = s.results := rfl
@[simp] lemma State.setPhase_self : (s.setPhase t p).phase t = p := by simp [State.setPhase]

lemma State.setPhase_of_ne {t' : τ} (h : t' ≠ t) : (s.setPhase t p).phase t' = s.phase t' := by
  simp [State.setPhase, h]

lemma State.setPhase_phase : (s.setPhase t p).phase = Function.update s.phase t p := rfl

@[simp] lemma State.setPhase_setPhase (p' : Phase α) :
    (s.setPhase t p).setPhase t p' = s.setPhase t p' := by
  simp [State.setPhase]

@[simp] lemma State.setPhase_inj {p' : Phase α} : s.setPhase t p = s.setPhase t p' ↔ p = p' := by
  constructor
  · intro h
    rw [← State.setPhase_self s t p, h, State.setPhase_self]
  · intro h
    rw [h]

end SetPhase

/-- One step of `enqueue` or `dequeue`, `none` when the thread is not at one. The branches follow
the loops of `mpmc_queue.hpp`: `dif` is the node's sequence number less the position (less the
position plus one for `dequeue`); a failed compare-exchange leaves in `pos` the counter it found. -/
def step (q : QueueSize) (s : State τ α) : Action τ α → Option (State τ α)
  | .enqueue t d => if (s.phase t).isIdle then some (s.setPhase t (.enqLoadTail d)) else none
  | .dequeue t => if (s.phase t).isIdle then some (s.setPhase t .deqLoadHead) else none
  | .next t spurious =>
    match s.phase t with
    | .idle => none
    | .enqLoadTail d => some (s.setPhase t (.enqLoadSeq d s.tail))
    | .enqLoadSeq d pos =>
      let dif : Int := (s.seq (q.index pos) : Int) - pos
      if dif = 0 then some (s.setPhase t (.enqCas d pos))
      else if dif < 0 then some (s.setPhase t .idle)
      else some (s.setPhase t (.enqLoadTail d))
    | .enqCas d pos =>
      if s.tail = pos ∧ spurious = false then
        some { s.setPhase t (.enqWrite d pos) with tail := pos + 1, log := s.log ++ [d] }
      else some (s.setPhase t (.enqLoadSeq d s.tail))
    | .enqWrite d pos =>
      some { s.setPhase t (.enqPublish pos) with
        data := Function.update s.data (q.index pos) (some d) }
    | .enqPublish pos =>
      some { s.setPhase t .idle with seq := Function.update s.seq (q.index pos) (pos + 1) }
    | .deqLoadHead => some (s.setPhase t (.deqLoadSeq s.head))
    | .deqLoadSeq pos =>
      let dif : Int := (s.seq (q.index pos) : Int) - (pos + 1 : Nat)
      if dif = 0 then some (s.setPhase t (.deqCas pos))
      else if dif < 0 then some (s.setPhase t .idle)
      else some (s.setPhase t .deqLoadHead)
    | .deqCas pos =>
      if s.head = pos ∧ spurious = false then
        some { s.setPhase t (.deqRead pos) with head := pos + 1 }
      else some (s.setPhase t (.deqLoadSeq s.head))
    | .deqRead pos => some (s.setPhase t (.deqRelease pos (s.data (q.index pos))))
    | .deqRelease pos v =>
      some { s.setPhase t .idle with
        seq := Function.update s.seq (q.index pos) (pos + (q.size - 1) + 1)
        results := s.results ++ [(pos, v)] }

/-- A run of actions; `none` when one of them is not enabled. -/
def run (q : QueueSize) (s : State τ α) : List (Action τ α) → Option (State τ α)
  | [] => some s
  | a :: as => (step q s a).bind fun s => run q s as

/-- The states some interleaving of calls reaches from a new queue. -/
inductive Reachable (q : QueueSize) : State τ α → Prop
  | init : Reachable q init
  | step {s s' : State τ α} (a : Action τ α) : Reachable q s → step q s a = some s' →
      Reachable q s'

lemma Reachable.run {q : QueueSize} {s s' : State τ α} {as : List (Action τ α)}
    (hs : Reachable q s) (h : MPMCQueue.run q s as = some s') : Reachable q s' := by
  -- induction on the actions, the reachable state moving along
  induction as generalizing s with
  | nil =>
    rw [MPMCQueue.run, Option.some.injEq] at h
    exact h ▸ hs
  | cons a as ih =>
    rw [MPMCQueue.run, Option.bind_eq_some_iff] at h
    obtain ⟨s₁, h₁, h₂⟩ := h
    exact ih (hs.step a h₁) h₂

/-- Thread `t` runs alone, with no spurious failure, until its call returns; `fuel` bounds its
steps. -/
def runAlone (q : QueueSize) (t : τ) : Nat → State τ α → Option (State τ α)
  | 0, s => if (s.phase t).isIdle then some s else none
  | fuel + 1, s =>
    if (s.phase t).isIdle then some s else (step q s (.next t false)).bind (runAlone q t fuel)

lemma runAlone_of_idle {q : QueueSize} {t : τ} {s : State τ α} (h : s.phase t = .idle) :
    ∀ fuel, runAlone q t fuel s = some s := by
  intro fuel
  cases fuel <;> rw [runAlone, if_pos (by rw [h]; rfl)]

lemma Reachable.runAlone {q : QueueSize} {t : τ} {s s' : State τ α} {fuel : Nat}
    (hs : Reachable q s) (h : runAlone q t fuel s = some s') : Reachable q s' := by
  -- one step of `t` per unit of fuel
  induction fuel generalizing s with
  | zero =>
    rw [MPMCQueue.runAlone] at h
    split_ifs at h
    cases h
    exact hs
  | succ fuel ih =>
    rw [MPMCQueue.runAlone] at h
    split_ifs at h
    · cases h
      exact hs
    · obtain ⟨s₁, h₁, h₂⟩ := Option.bind_eq_some_iff.mp h
      exact ih (hs.step _ h₁) h₂

lemma runAlone_succ_of_isIdle_eq_false {q : QueueSize} {t : τ} {s : State τ α} {fuel : Nat}
    (h : (s.phase t).isIdle = false) :
    runAlone q t (fuel + 1) s = (step q s (.next t false)).bind (runAlone q t fuel) := by
  rw [runAlone, if_neg (by rw [h]; exact Bool.false_ne_true)]

end MPMCQueue

end CassandraDriver
