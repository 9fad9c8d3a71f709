import Mathlib.Logic.Relation
import Mathlib.Logic.Function.Basic

/-!
# Happens-before for threads with mutexes

An execution is the list of the events of all threads in the order they occur: a read or write
of a shared location, or a lock or unlock of a mutex. An event happens before a later one of its
own thread (program order), and an unlock happens before every later lock of its mutex (it
synchronizes with them, as the prior unlocks of a mutex do with a lock in C++); happens-before
is the transitive closure of the two (`HB`). Two events of different threads race when they
access one location, one of them writes it, and neither happens before the other (`Race`).

A mutex is held by at most one thread: an execution is `LockSafe` when every lock finds its
mutex free and every unlock is by its holder (`holdersFrom`).

`HB.mem_of_closed` is the rule for showing that one event does not happen before another: a
set of events that holds the direct successors of the first and is closed under the direct
relation holds every event after it. `not_hb_append` applies it to a thread `A` whose events
are followed by those of a thread `B`: an event of `B` before `B`'s first lock does not happen
after any event of `A`.
-/

namespace HappensBefore

variable {T L M : Type*}

/-- An access to a shared location, or an operation on a mutex. -/
inductive Action (L M : Type*)
  | read (loc : L)
  | write (loc : L)
  | lock (m : M)
  | unlock (m : M)
  deriving DecidableEq

/-- An event: the thread that performs it, and its action. -/
structure Event (T L M : Type*) where
  thread : T
  action : Action L M
  deriving DecidableEq

namespace Action

/-- Two accesses to one location, one of them a write. -/
def Conflicts : Action L M → Action L M → Prop
  | .write x, .write y | .write x, .read y | .read x, .write y => x = y
  | _, _ => False

/-- An unlock and a lock of one mutex. -/
def Synchronizes : Action L M → Action L M → Prop
  | .unlock m, .lock m' => m = m'
  | _, _ => False

/-- The action takes a mutex. -/
def IsLock : Action L M → Prop
  | .lock _ => True
  | _ => False

/-- The action reads or writes a location. -/
def IsAccess : Action L M → Prop
  | .read _ | .write _ => True
  | _ => False

end Action

/-- `i` is directly before `j` in the execution `e`: it is earlier, and in the same thread or an
unlock that synchronizes with the lock `j`. -/
def Direct (e : List (Event T L M)) (i j : Nat) : Prop :=
  i < j ∧ ∃ a b, e[i]? = some a ∧ e[j]? = some b ∧
    (a.thread = b.thread ∨ a.action.Synchronizes b.action)

/-- Happens-before: the transitive closure of `Direct`. -/
def HB (e : List (Event T L M)) : Nat → Nat → Prop :=
  Relation.TransGen (Direct e)

/-- The events `i < j` of two threads race: they conflict, and `i` does not happen before
`j`. -/
def Race (e : List (Event T L M)) (i j : Nat) : Prop :=
  i < j ∧ ∃ a b, e[i]? = some a ∧ e[j]? = some b ∧ a.thread ≠ b.thread ∧
    a.action.Conflicts b.action ∧ ¬ HB e i j

section HB

variable {e : List (Event T L M)} {i j : Nat}

lemma HB.lt (h : HB e i j) : i < j := by
  induction h with
  | single h => exact h.1
  | tail _ h ih => exact Nat.lt_trans ih h.1

/-- The invariant rule: a set that holds the direct successors of `i` and is closed under
`Direct` holds every event `i` happens before. -/
lemma HB.mem_of_closed (S : Nat → Prop) (hstart : ∀ k, Direct e i k → S k)
    (hclosed : ∀ k l, S k → Direct e k l → S l) (h : HB e i j) : S j := by
  induction h with
  | single h => exact hstart _ h
  | tail _ h ih => exact hclosed _ _ ih h

lemma Direct.of_thread {a b : Event T L M} (hij : i < j) (ha : e[i]? = some a)
    (hb : e[j]? = some b) (ht : a.thread = b.thread) : Direct e i j :=
  ⟨hij, a, b, ha, hb, .inl ht⟩

lemma Direct.of_sync {a b : Event T L M} (hij : i < j) (ha : e[i]? = some a)
    (hb : e[j]? = some b) (hs : a.action.Synchronizes b.action) : Direct e i j :=
  ⟨hij, a, b, ha, hb, .inr hs⟩

end HB

/-- A lock is the only action an unlock synchronizes with. -/
lemma Action.isLock_of_synchronizes {a b : Action L M} (h : a.Synchronizes b) : b.IsLock := by
  cases a <;> cases b <;> simp_all [Action.Synchronizes, Action.IsLock]

/-- Thread `A` runs the events of `a` from `i` on, then thread `B` runs those of `b`. Up to the
first lock of `b`, no event of `b` happens after `i`. -/
theorem not_hb_append {a b : List (Event T L M)} {A B : T} {i j : Nat} (hAB : A ≠ B)
    (hi : i < a.length) (hA : ∀ x ∈ a.drop i, x.thread = A) (hB : ∀ x ∈ b, x.thread = B)
    (hj : ∀ k ≤ j, ∀ x, b[k]? = some x → ¬ x.action.IsLock) :
    ¬ HB (a ++ b) i (a.length + j) := by
  -- the events after `i`: the rest of `a`, and the events of `b` from its first lock on
  let S : Nat → Prop := fun k =>
    (i < k ∧ k < a.length) ∨
      (a.length ≤ k ∧ ∃ k' ≤ k - a.length, ∃ x, b[k']? = some x ∧ x.action.IsLock)
  have hthreadA : ∀ k x, i ≤ k → (a ++ b)[k]? = some x → k < a.length → x.thread = A := by
    intro k x hik hx hk
    rw [List.getElem?_append_left hk] at hx
    refine hA x (List.mem_iff_getElem?.mpr ⟨k - i, ?_⟩)
    rw [List.getElem?_drop, Nat.add_sub_cancel' hik]
    exact hx
  have hthreadB : ∀ k x, (a ++ b)[k]? = some x → a.length ≤ k → x.thread = B ∧
      b[k - a.length]? = some x := by
    intro k x hx hk
    rw [List.getElem?_append_right hk] at hx
    exact ⟨hB x (List.mem_of_getElem? hx), hx⟩
  -- a step from an event of `A` into `b` is a lock of `b`
  have hcross : ∀ k l, i ≤ k → k < a.length → Direct (a ++ b) k l → S l := by
    rintro k l hik hk ⟨hkl, x, y, hx, hy, hxy⟩
    by_cases hl : l < a.length
    · exact .inl ⟨by omega, hl⟩
    · obtain ⟨hyB, hy'⟩ := hthreadB l y hy (by omega)
      have hsync : x.action.Synchronizes y.action := by
        refine hxy.resolve_left fun hxy => hAB ?_
        rw [← hthreadA k x hik hx hk, hxy, hyB]
      exact .inr ⟨by omega, l - a.length, Nat.le_refl _, y, hy',
        Action.isLock_of_synchronizes hsync⟩
  have hS : ∀ l, HB (a ++ b) i l → S l := fun l =>
    HB.mem_of_closed S (fun k hk => hcross i k (Nat.le_refl i) hi hk) fun k l hk hkl => by
      rcases hk with ⟨hik, hk⟩ | ⟨hk, k', hk', x, hx, hlock⟩
      · exact hcross k l (Nat.le_of_lt hik) hk hkl
      · exact .inr ⟨by have := hkl.1; omega, k', by have := hkl.1; omega, x, hx, hlock⟩
  intro h
  rcases hS _ h with ⟨-, hlt⟩ | ⟨-, k', hk', x, hx, hlock⟩
  · omega
  · exact hj k' (by omega) x hx hlock

/-- Thread `A` runs the event `i` of `a` and later unlocks `m`, then thread `B` locks `m` in `b`
and later runs its event `k`: `i` happens before `k`. -/
theorem hb_append_of_unlock_lock {a b : List (Event T L M)} {A B : T} {m : M} {x y : Event T L M}
    {i r l k : Nat} (hx : a[i]? = some x) (hxA : x.thread = A) (hir : i ≤ r)
    (hr : a[r]? = some ⟨A, .unlock m⟩) (hl : b[l]? = some ⟨B, .lock m⟩) (hk : l ≤ k)
    (hy : b[k]? = some y) (hyB : y.thread = B) :
    HB (a ++ b) i (a.length + k) := by
  have hra : r < a.length := by
    by_contra hge
    rw [List.getElem?_eq_none (by omega)] at hr
    cases hr
  have hr' : (a ++ b)[r]? = some ⟨A, .unlock m⟩ := by rw [List.getElem?_append_left hra, hr]
  have hl' : (a ++ b)[a.length + l]? = some ⟨B, .lock m⟩ := by
    rw [List.getElem?_append_right (by omega), Nat.add_sub_cancel_left, hl]
  -- program order in `A` up to the unlock, the unlock to the lock, program order in `B`
  have hA : Relation.ReflTransGen (Direct (a ++ b)) i r := by
    rcases Nat.eq_or_lt_of_le hir with rfl | hlt
    · exact .refl
    · refine .single (Direct.of_thread hlt ?_ hr' hxA)
      rw [List.getElem?_append_left (by omega), hx]
  have hsync : Direct (a ++ b) r (a.length + l) :=
    Direct.of_sync (by omega) hr' hl' rfl
  have hB : Relation.ReflTransGen (Direct (a ++ b)) (a.length + l) (a.length + k) := by
    rcases Nat.eq_or_lt_of_le hk with rfl | hlt
    · exact .refl
    · refine .single (Direct.of_thread (by omega) hl' ?_ hyB.symm)
      rw [List.getElem?_append_right (by omega), Nat.add_sub_cancel_left, hy]
  exact (Relation.TransGen.tail' hA hsync).trans_left hB

/-! ### Mutual exclusion -/

section Locks

variable [DecidableEq T] [DecidableEq M]

/-- The holder of each mutex after the events, from the holders `h`: `none` once a lock finds
its mutex held or an unlock is not by its holder. -/
def holdersFrom : (M → Option T) → List (Event T L M) → Option (M → Option T)
  | h, [] => some h
  | h, ⟨t, .lock m⟩ :: es =>
    if h m = none then holdersFrom (Function.update h m (some t)) es else none
  | h, ⟨t, .unlock m⟩ :: es =>
    if h m = some t then holdersFrom (Function.update h m none) es else none
  | h, ⟨_, .read _⟩ :: es | h, ⟨_, .write _⟩ :: es => holdersFrom h es

/-- Every lock finds its mutex free, and every unlock is by the holder. -/
def LockSafe (e : List (Event T L M)) : Prop :=
  (holdersFrom (fun _ => none) e).isSome

lemma holdersFrom_append (h : M → Option T) (a b : List (Event T L M)) :
    holdersFrom h (a ++ b) = (holdersFrom h a).bind fun h' => holdersFrom h' b := by
  induction a generalizing h with
  | nil => rfl
  | cons x a ih =>
    obtain ⟨t, act⟩ := x
    cases act <;> simp only [List.cons_append, holdersFrom, ih] <;> split <;> rfl

/-- Reads and writes leave the holders as they are. -/
lemma holdersFrom_of_isAccess (h : M → Option T) {es : List (Event T L M)}
    (hes : ∀ x ∈ es, x.action.IsAccess) : holdersFrom h es = some h := by
  induction es with
  | nil => rfl
  | cons x es ih =>
    obtain ⟨t, act⟩ := x
    have hrest := ih fun y hy => hes y (List.mem_cons_of_mem _ hy)
    cases act with
    | read _ | write _ => exact hrest
    | lock _ | unlock _ => exact absurd (hes _ (List.mem_cons_self ..)) id

/-- A critical section of thread `t` on a free mutex `m` leaves the holders as they were. -/
lemma holdersFrom_critical (h : M → Option T) {m : M} (hm : h m = none) (t : T)
    {body : List (Event T L M)} (hbody : ∀ x ∈ body, x.action.IsAccess) :
    holdersFrom h (⟨t, .lock m⟩ :: body ++ [⟨t, .unlock m⟩]) = some h := by
  rw [List.cons_append, holdersFrom, if_pos hm, holdersFrom_append,
    holdersFrom_of_isAccess _ hbody, Option.bind_some, holdersFrom,
    if_pos (Function.update_self ..), holdersFrom, Function.update_idem,
    Function.update_eq_self_iff.mpr hm.symm]

end Locks

end HappensBefore
