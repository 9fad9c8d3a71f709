import Mathlib

/-!
# Client-side timestamps

`MonotonicTimestampGenerator::next` of `timestamp_generator.cpp`: a thread loads `last_`,
computes the next timestamp from it and the clock, and publishes it by a compare-exchange,
retrying when another thread got there first. Threads interleave at each atomic step.

A successful compare-exchange stores a value above the one its thread loaded, which is the
value it replaces; so the values returned, in the order their compare-exchanges succeeded,
strictly increase, and `last_` is the last of them (`next_increasing`). That needs the value
`compute_next` returns to be above `last`, which fails at `INT64_MAX`: `last + 1` is a signed
overflow there, which wraps here, and a clock reading of `INT64_MAX` makes the next call
return `INT64_MIN` (`next_clockAtMax`). The values keep increasing while the clock readings
stay below `INT64_MAX` by more than the number of steps.
-/

namespace CassandraDriver

namespace MonotonicTimestampGenerator

/-- An `int64_t` result of an addition, as two's complement wraps it. -/
def wrapInt64 (x : Int) : Int := Int.bmod x (2 ^ 64)

/-- `compute_next(last)` with the clock reading `current` of `get_time_since_epoch_us`: the
reading, or `last + 1` when the clock is not ahead of `last`. The warning it logs on clock
skew changes nothing. -/
def computeNext (last current : Int) : Int :=
  if last ≥ current then wrapInt64 (last + 1) else current

/-- Where a thread is in a call of `next()`: about to load `last_`, holding the value it
loaded, or holding that value and the timestamp computed from it. -/
inductive Phase
  | idle
  | loaded (last : Int)
  | computed (last next : Int)
  deriving DecidableEq, Repr

/-- The generator shared by the threads `τ`: `last_`, each thread's phase, and the values
returned so far, in the order their compare-exchanges succeeded. -/
structure State (τ : Type) where
  last : Int
  phase : τ → Phase
  returned : List Int

/-- The atomic steps: a load of `last_`, a reading of the clock and the computation from it,
and a compare-exchange. -/
inductive Action (τ : Type)
  | load (thread : τ)
  | compute (thread : τ) (current : Int)
  | compareExchange (thread : τ)

variable {τ : Type} [DecidableEq τ]

/-- A generator no thread has called: `last_(0)`. -/
def init : State τ := ⟨0, fun _ => .idle, []⟩

/-- Move one thread to another phase. -/
def State.setPhase (s : State τ) (t : τ) (p : Phase) : State τ :=
  { s with phase := Function.update s.phase t p }

@[simp] lemma State.setPhase_last (s : State τ) (t : τ) (p : Phase) :
    (s.setPhase t p).last = s.last := rfl

@[simp] lemma State.setPhase_returned (s : State τ) (t : τ) (p : Phase) :
    (s.setPhase t p).returned = s.returned := rfl

lemma State.setPhase_phase (s : State τ) (t t' : τ) (p : Phase) :
    (s.setPhase t p).phase t' = if t' = t then p else s.phase t' := by
  simp [setPhase, Function.update_apply]

/-- One atomic step, `none` when the thread is not at that step. A failed compare-exchange
sends the thread back to its load. -/
def step (s : State τ) : Action τ → Option (State τ)
  | .load t =>
    match s.phase t with
    | .idle => some (s.setPhase t (.loaded s.last))
    | _ => none
  | .compute t current =>
    match s.phase t with
    | .loaded last =>
      some (s.setPhase t (.computed last (computeNext last current)))
    | _ => none
  | .compareExchange t =>
    match s.phase t with
    | .computed last next =>
      if s.last = last then
        some { s.setPhase t .idle with last := next, returned := s.returned ++ [next] }
      else some (s.setPhase t .idle)
    | _ => none

/-- A run of steps; `none` when one of them is not enabled. -/
def run (s : State τ) : List (Action τ) → Option (State τ)
  | [] => some s
  | a :: as => (step s a).bind fun s => run s as

/-- One thread, a clock reading of `INT64_MAX` and then any reading: the second call returns
`INT64_MIN`. -/
theorem next_clockAtMax :
    ((run (init : State Unit)
        [.load (), .compute () (2 ^ 63 - 1), .compareExchange (),
          .load (), .compute () 0, .compareExchange ()]).map State.returned) =
      some [2 ^ 63 - 1, -2 ^ 63] := by
  decide

/-! ### The invariant -/

/-- The largest `int64_t`. -/
def int64Max : Int := 2 ^ 63 - 1

/-- A step reads the clock below `bound`, if it reads it at all. -/
def Action.ReadsBelow (bound : Int) : Action τ → Prop
  | .compute _ current => current ≤ bound
  | _ => True

instance (bound : Int) : DecidablePred (@Action.ReadsBelow τ bound) := fun a =>
  match a with
  | .load _ => isTrue trivial
  | .compute _ current => inferInstanceAs (Decidable (current ≤ bound))
  | .compareExchange _ => isTrue trivial

/-- What holds with `left` steps to go: the values returned strictly increase and `last_` is
the largest of them, `0` before any; a thread holds a value at most `last_`, and a timestamp above it; and
`last_` and the timestamps held are far enough below `INT64_MAX` for the steps left. -/
structure Inv (s : State τ) (left : Nat) : Prop where
  sorted : s.returned.Pairwise (· < ·)
  le_last : ∀ r ∈ s.returned, r ≤ s.last
  last_mem : s.returned ≠ [] → s.last ∈ s.returned
  last_init : s.returned = [] → s.last = 0
  loaded_le : ∀ t l, s.phase t = .loaded l → 0 ≤ l ∧ l ≤ s.last
  computed_lt : ∀ t l n, s.phase t = .computed l n → l ≤ s.last ∧ l < n ∧ n + left ≤ int64Max
  last_nonneg : 0 ≤ s.last
  last_add : s.last + left ≤ int64Max

omit [DecidableEq τ] in
lemma inv_init {left : Nat} (h : (left : Int) ≤ int64Max) : Inv (init : State τ) left where
  sorted := List.Pairwise.nil
  le_last := by simp [init]
  last_mem := by simp [init]
  last_init _ := rfl
  loaded_le := by simp [init]
  computed_lt := by simp [init]
  last_nonneg := le_refl _
  last_add := by simpa [init] using h

/-- A load takes `last_` itself. -/
lemma Inv.load {s : State τ} {left : Nat} {t : τ} (hs : Inv s (left + 1)) :
    Inv (s.setPhase t (.loaded s.last)) left where
  sorted := hs.sorted
  le_last := hs.le_last
  last_mem := hs.last_mem
  last_init := hs.last_init
  loaded_le t' l h := by
    rw [State.setPhase_phase] at h
    split_ifs at h with ht
    · cases h
      exact ⟨hs.last_nonneg, le_refl _⟩
    · exact hs.loaded_le t' l h
  computed_lt t' l n h := by
    rw [State.setPhase_phase] at h
    split_ifs at h with ht
    have := hs.computed_lt t' l n h
    simp only [State.setPhase_last]
    omega
  last_nonneg := hs.last_nonneg
  last_add := by have := hs.last_add; simp only [State.setPhase_last]; omega

/-- Below `INT64_MAX`, `compute_next` gives a value above `last`: `last + 1`, or a clock
reading above `last`. -/
lemma computeNext_cases {last : Int} (current : Int) (h0 : 0 ≤ last) (hmax : last < int64Max) :
    computeNext last current = last + 1 ∨ (computeNext last current = current ∧ last < current) := by
  unfold computeNext wrapInt64
  split_ifs with h
  · left
    unfold int64Max at hmax
    rw [Int.bmod_eq_of_le (by omega) (by omega)]
  · right
    exact ⟨rfl, by omega⟩

/-- The timestamp computed from a loaded value is above it and, with a clock reading below the
bound, far enough below `INT64_MAX`. -/
lemma Inv.compute {s : State τ} {left : Nat} {t : τ} {l current bound : Int}
    (hs : Inv s (left + 1)) (hphase : s.phase t = .loaded l) (hread : current ≤ bound)
    (hbound : bound + (left + 1) ≤ int64Max) :
    Inv (s.setPhase t (.computed l (computeNext l current))) left where
  sorted := hs.sorted
  le_last := hs.le_last
  last_mem := hs.last_mem
  last_init := hs.last_init
  loaded_le t' l' h := by
    rw [State.setPhase_phase] at h
    split_ifs at h with ht
    exact hs.loaded_le t' l' h
  computed_lt t' l' n h := by
    rw [State.setPhase_phase] at h
    split_ifs at h with ht
    · cases h
      obtain ⟨hl0, hll⟩ := hs.loaded_le t l hphase
      have hadd := hs.last_add
      rcases computeNext_cases current hl0 (by omega) with hn | ⟨hn, hlt⟩
      · rw [hn]
        simp only [State.setPhase_last]
        omega
      · rw [hn]
        simp only [State.setPhase_last]
        omega
    · have := hs.computed_lt t' l' n h
      simp only [State.setPhase_last]
      omega
  last_nonneg := hs.last_nonneg
  last_add := by have := hs.last_add; simp only [State.setPhase_last]; omega

/-- A failed compare-exchange only sends its thread back. -/
lemma Inv.retry {s : State τ} {left : Nat} {t : τ} (hs : Inv s (left + 1)) :
    Inv (s.setPhase t .idle) left where
  sorted := hs.sorted
  le_last := hs.le_last
  last_mem := hs.last_mem
  last_init := hs.last_init
  loaded_le t' l h := by
    rw [State.setPhase_phase] at h
    split_ifs at h with ht
    exact hs.loaded_le t' l h
  computed_lt t' l n h := by
    rw [State.setPhase_phase] at h
    split_ifs at h with ht
    have := hs.computed_lt t' l n h
    simp only [State.setPhase_last]
    omega
  last_nonneg := hs.last_nonneg
  last_add := by have := hs.last_add; simp only [State.setPhase_last]; omega

/-- A successful compare-exchange replaces the value its thread loaded, which is below the
timestamp it stores: that timestamp is above every value returned and every value held. -/
lemma Inv.publish {s : State τ} {left : Nat} {t : τ} {n : Int} (hs : Inv s (left + 1))
    (hphase : s.phase t = .computed s.last n) :
    Inv { s.setPhase t .idle with last := n, returned := s.returned ++ [n] } left := by
  obtain ⟨-, hlt, hn⟩ := hs.computed_lt t s.last n hphase
  exact {
    sorted := List.pairwise_append.mpr ⟨hs.sorted, List.pairwise_singleton _ _,
      fun r hr n' hn' => by
        rw [List.mem_singleton.mp hn']
        exact lt_of_le_of_lt (hs.le_last r hr) hlt⟩
    le_last := fun r hr => by
      rcases List.mem_append.mp hr with hr | hr
      · exact le_trans (hs.le_last r hr) hlt.le
      · exact le_of_eq (List.mem_singleton.mp hr)
    last_mem := fun _ => List.mem_append_right _ (List.mem_singleton_self n)
    last_init := fun h => absurd h (List.append_ne_nil_of_right_ne_nil _ (List.cons_ne_nil n []))
    loaded_le := fun t' l h => by
      simp only [State.setPhase_phase] at h
      split_ifs at h with ht
      obtain ⟨hl0, hl⟩ := hs.loaded_le t' l h
      exact ⟨hl0, le_trans hl hlt.le⟩
    computed_lt := fun t' l n' h => by
      simp only [State.setPhase_phase] at h
      split_ifs at h with ht
      obtain ⟨hl, hln, hbound⟩ := hs.computed_lt t' l n' h
      exact ⟨le_trans hl hlt.le, hln, by omega⟩
    last_nonneg := le_trans hs.last_nonneg hlt.le
    last_add := show n + left ≤ int64Max by omega }

/-- What a step can do. -/
lemma step_cases {s s' : State τ} {a : Action τ} (h : step s a = some s') :
    (∃ t, a = .load t ∧ s.phase t = .idle ∧ s' = s.setPhase t (.loaded s.last)) ∨
    (∃ t l current, a = .compute t current ∧ s.phase t = .loaded l ∧
      s' = s.setPhase t (.computed l (computeNext l current))) ∨
    (∃ t n, a = .compareExchange t ∧ s.phase t = .computed s.last n ∧
      s' = { s.setPhase t .idle with last := n, returned := s.returned ++ [n] }) ∨
    (∃ t l n, a = .compareExchange t ∧ s.phase t = .computed l n ∧ s.last ≠ l ∧
      s' = s.setPhase t .idle) := by
  cases a with
  | load t =>
    simp only [step] at h
    split at h <;> simp_all
  | compute t current =>
    simp only [step] at h
    split at h <;> simp_all
  | compareExchange t =>
    simp only [step] at h
    split at h
    · next l n hphase =>
      split_ifs at h with hlast
      · subst hlast
        exact .inr (.inr (.inl ⟨t, n, rfl, hphase, (Option.some.inj h).symm⟩))
      · exact .inr (.inr (.inr ⟨t, l, n, rfl, hphase, hlast, (Option.some.inj h).symm⟩))
    · simp at h

/-- Every step keeps the invariant, one step fewer to go. -/
lemma Inv.step {s s' : State τ} {left : Nat} {a : Action τ} {bound : Int}
    (hs : Inv s (left + 1)) (hread : a.ReadsBelow bound) (hbound : bound + (left + 1) ≤ int64Max)
    (h : step s a = some s') : Inv s' left := by
  rcases step_cases h with ⟨t, rfl, -, rfl⟩ | ⟨t, l, current, rfl, hphase, rfl⟩ |
    ⟨t, n, rfl, hphase, rfl⟩ | ⟨t, l, n, rfl, -, -, rfl⟩
  · exact hs.load
  · exact hs.compute hphase hread hbound
  · exact hs.publish hphase
  · exact hs.retry

/-- Every run keeps the invariant, as long as its clock readings stay below the bound. -/
lemma Inv.run : ∀ {as : List (Action τ)} {s s' : State τ} {bound : Int},
    Inv s as.length → (∀ a ∈ as, a.ReadsBelow bound) → bound + as.length ≤ int64Max →
    run s as = some s' → Inv s' 0
  | [], s, s', _, hs, _, _, h => by
    cases h
    exact hs
  | a :: as, s, s', bound, hs, hread, hbound, h => by
    simp only [MonotonicTimestampGenerator.run, Option.bind_eq_some_iff] at h
    obtain ⟨s₁, h₁, h₂⟩ := h
    simp only [List.length_cons, Nat.cast_add, Nat.cast_one] at hs hbound
    exact Inv.run (hs.step (hread a (by simp)) hbound h₁)
      (fun a ha => hread a (by simp [ha])) (by omega) h₂

/-- Over every interleaving of the atomic steps of any number of threads, with fewer than
`INT64_MAX` steps and clock readings below `INT64_MAX` by more than the number of steps, the
values returned strictly increase in the order their compare-exchanges succeeded, and `last_`
is the largest of them, `0` before any. -/
theorem next_increasing (as : List (Action τ)) (hlen : (as.length : Int) ≤ int64Max)
    (hreads : ∀ a ∈ as, a.ReadsBelow (int64Max - as.length)) :
    ∀ s ∈ run init as, s.returned.Pairwise (· < ·) ∧ (∀ r ∈ s.returned, r ≤ s.last) ∧
      (s.returned ≠ [] → s.last ∈ s.returned) ∧ (s.returned = [] → s.last = 0) := by
  intro s hs
  have hinv := Inv.run (inv_init hlen) hreads (by omega) hs
  exact ⟨hinv.sorted, hinv.le_last, hinv.last_mem, hinv.last_init⟩

/-- Two threads: the second one's compare-exchange fails after the first one's succeeds, and
its retry returns the next timestamp. -/
theorem next_increasing_retry :
    let as : List (Action Bool) :=
      [.load true, .load false, .compute false 10, .compute true 5, .compareExchange false,
        .compareExchange true, .load true, .compute true 3, .compareExchange true]
    (run init as).map State.returned = some [10, 11] ∧
      ∀ s ∈ run init as, s.returned.Pairwise (· < ·) ∧ (∀ r ∈ s.returned, r ≤ s.last) ∧
        (s.returned ≠ [] → s.last ∈ s.returned) ∧ (s.returned = [] → s.last = 0) :=
  ⟨by decide, next_increasing _ (by decide) (by decide)⟩

end MonotonicTimestampGenerator

end CassandraDriver
