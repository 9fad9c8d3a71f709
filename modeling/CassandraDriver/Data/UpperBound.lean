import Mathlib

/-!
# Binary search for an upper bound

The loop of the standard library's `upper_bound`: a window `[first, first + len)` that halves
at each step, moving past the middle element unless the comparison already holds there. On a
sequence partitioned by the comparison (every element where it holds lies after every element
where it does not) the loop finds the first element where it holds, that is, it computes the
linear search `List.findIdx`. On a sequence sorted by a key, searching for the first key above
`k` ends the run of elements whose key is at most `k`, and the element before the result is the
one with the greatest key at most `k` (`getLast?_takeWhile_le`).
-/

namespace UpperBound

variable {β : Type} (p : β → Bool)

/-- The search loop on the window `[first, first + len)`, where `p e` stands for
`comp(value, e)`. -/
def search (xs : List β) (first len : Nat) : Nat :=
  if len = 0 then first
  else
    let half := len / 2
    let middle := first + half
    match xs[middle]? with
    | some e =>
      if p e then search xs first half
      else search xs (middle + 1) (len - half - 1)
    | none => first
termination_by len
decreasing_by all_goals omega

/-- `upper_bound(xs.begin(), xs.end(), …)`: the index the search returns. -/
def upperBound (xs : List β) : Nat := search p xs 0 xs.length

/-- Every element where `p` holds lies after every element where it fails. -/
def Partitioned (xs : List β) : Prop :=
  ∀ i j (hi : i < xs.length) (hj : j < xs.length), i ≤ j → p xs[i] → p xs[j]

/-- What the loop knows about its window: `p` fails before it and holds after it. -/
structure Window (xs : List β) (first len : Nat) : Prop where
  le_length : first + len ≤ xs.length
  before : ∀ i (hi : i < xs.length), i < first → p xs[i] = false
  after : ∀ i (hi : i < xs.length), first + len ≤ i → p xs[i] = true

variable {p}

lemma window_all (xs : List β) : Window p xs 0 xs.length :=
  ⟨by simp, fun _ _ h => absurd h (Nat.not_lt_zero _), fun _ hi h => absurd hi (by omega)⟩

/-- When `p` holds at the middle, the answer lies in the lower half. -/
lemma Window.left {xs : List β} {first len : Nat} (hw : Window p xs first len)
    (hp : Partitioned p xs) (hmid : first + len / 2 < xs.length)
    (htrue : p xs[first + len / 2] = true) : Window p xs first (len / 2) := by
  refine ⟨by have := hw.le_length; omega, hw.before, fun i hi hle => ?_⟩
  exact hp _ i hmid hi hle htrue

/-- When `p` fails at the middle, it fails up to the middle, and the answer lies above it. -/
lemma Window.right {xs : List β} {first len : Nat} (hw : Window p xs first len)
    (hp : Partitioned p xs) (hmid : first + len / 2 < xs.length)
    (hfalse : p xs[first + len / 2] = false) :
    Window p xs (first + len / 2 + 1) (len - len / 2 - 1) := by
  refine ⟨by have := hw.le_length; omega, fun i hi hlt => ?_, fun i hi hle => ?_⟩
  · cases hpi : p xs[i] with
    | false => rfl
    | true =>
      have htrue := hp i _ hi hmid (by omega) hpi
      rw [hfalse] at htrue
      exact absurd htrue Bool.false_ne_true
  · exact hw.after i hi (by omega)

/-- The loop ends on the first element where `p` holds, or past the end. -/
lemma search_eq_findIdx {xs : List β} (hp : Partitioned p xs) {first len : Nat}
    (hw : Window p xs first len) : search p xs first len = xs.findIdx p := by
  induction first, len using search.induct p xs with
  | case1 first =>
    rw [search, if_pos rfl]
    by_cases hend : first < xs.length
    · refine ((List.findIdx_eq hend).mpr ⟨hw.after first hend (by omega), ?_⟩).symm
      intro j hj
      simp [hw.before j (by omega) hj]
    · have hfirst : first = xs.length := by have := hw.le_length; omega
      rw [hfirst, eq_comm, List.findIdx_eq_length]
      intro x hx
      obtain ⟨i, hi, rfl⟩ := List.getElem_of_mem hx
      exact hw.before i hi (by omega)
  | case2 first len hlen half middle e hget he ih =>
    obtain ⟨hmid, rfl⟩ := List.getElem?_eq_some_iff.mp hget
    change xs[first + len / 2]? = _ at hget
    rw [search, if_neg hlen]
    simp only [hget, he, if_true]
    exact ih (hw.left hp hmid he)
  | case3 first len hlen half middle e hget he ih =>
    obtain ⟨hmid, rfl⟩ := List.getElem?_eq_some_iff.mp hget
    change xs[first + len / 2]? = _ at hget
    rw [search, if_neg hlen]
    simp only [hget, he]
    exact ih (hw.right hp hmid (by simpa using he))
  | case4 first len hlen half middle hget =>
    have hmid : middle < xs.length := by have := hw.le_length; omega
    rw [List.getElem?_eq_getElem hmid] at hget
    exact absurd hget (Option.some_ne_none _)

/-- On a partitioned sequence the binary search finds what the linear search finds. -/
theorem upperBound_eq_findIdx {xs : List β} (hp : Partitioned p xs) :
    upperBound p xs = xs.findIdx p :=
  search_eq_findIdx hp (window_all xs)

lemma upperBound_le_length {xs : List β} (hp : Partitioned p xs) :
    upperBound p xs ≤ xs.length := by
  rw [upperBound_eq_findIdx hp]
  exact List.findIdx_le_length

/-! ### Sorted sequences -/

section Sorted

variable {τ : Type} [LinearOrder τ] {f : β → τ} {xs : List β}

/-- A sequence sorted by a key is partitioned by "the key is above `k`". -/
lemma partitioned_of_pairwise (hs : xs.Pairwise fun a b => f a ≤ f b) (k : τ) :
    Partitioned (fun x => decide (k < f x)) xs := by
  intro i j hi hj hij hlt
  simp only [decide_eq_true_eq] at hlt ⊢
  rcases Nat.lt_or_eq_of_le hij with hij | rfl
  · exact lt_of_lt_of_le hlt (List.pairwise_iff_getElem.mp hs i j hi hj hij)
  · exact hlt

/-- On a sorted sequence `upper_bound` ends the run of elements whose key is at most `k`. -/
theorem take_upperBound (hs : xs.Pairwise fun a b => f a ≤ f b) (k : τ) :
    xs.take (upperBound (fun x => decide (k < f x)) xs) =
      xs.takeWhile fun x => decide (f x ≤ k) := by
  rw [upperBound_eq_findIdx (partitioned_of_pairwise hs k), List.takeWhile_eq_take_findIdx_not]
  congr 2
  funext x
  simp only [← decide_not, not_le]

/-- Past that run every key is above `k`. -/
lemma lt_of_mem_dropWhile (hs : xs.Pairwise fun a b => f a ≤ f b) (k : τ) {y : β}
    (hy : y ∈ xs.dropWhile fun x => decide (f x ≤ k)) : k < f y := by
  have hsorted : (xs.dropWhile fun x => decide (f x ≤ k)).Pairwise fun a b => f a ≤ f b :=
    hs.sublist (List.dropWhile_suffix _).sublist
  cases hdrop : xs.dropWhile fun x => decide (f x ≤ k) with
  | nil => rw [hdrop] at hy; exact absurd hy List.not_mem_nil
  | cons d ds =>
    have hd : k < f d := by
      have := List.head_dropWhile_not (fun x => decide (f x ≤ k)) (l := xs) (by simp [hdrop])
      simp only [hdrop, List.head_cons, decide_eq_false_iff_not, not_le] at this
      exact this
    rw [hdrop] at hy hsorted
    rcases List.mem_cons.mp hy with rfl | hy
    · exact hd
    · exact lt_of_lt_of_le hd (List.rel_of_pairwise_cons hsorted hy)

/-- The last element of that run has the greatest key at most `k`. -/
lemma getLast?_takeWhile_le (hs : xs.Pairwise fun a b => f a ≤ f b) {k : τ} {x : β}
    (h : (xs.takeWhile fun y => decide (f y ≤ k)).getLast? = some x) :
    x ∈ xs ∧ f x ≤ k ∧ ∀ y ∈ xs, f y ≤ k → f y ≤ f x := by
  have hmem := List.mem_of_getLast? h
  refine ⟨(List.takeWhile_sublist _).subset hmem, by simpa using List.mem_takeWhile_imp hmem,
    fun y hy hyk => ?_⟩
  rw [← List.takeWhile_append_dropWhile (p := fun y => decide (f y ≤ k)) (l := xs),
    List.mem_append] at hy
  rcases hy with hy | hy
  · obtain ⟨init, hinit⟩ := List.getLast?_eq_some_iff.mp h
    have hsorted : (init ++ [x]).Pairwise fun a b => f a ≤ f b :=
      hinit ▸ hs.sublist (List.takeWhile_sublist _)
    rw [hinit, List.mem_append, List.mem_singleton] at hy
    rcases hy with hy | rfl
    · exact (List.pairwise_append.mp hsorted).2.2 y hy x (List.mem_singleton_self x)
    · exact le_refl _
  · exact absurd hyk (not_le.mpr (lt_of_mem_dropWhile hs k hy))

/-- The run is empty exactly when every key is above `k`. -/
lemma getLast?_takeWhile_le_eq_none (hs : xs.Pairwise fun a b => f a ≤ f b) (k : τ) :
    (xs.takeWhile fun y => decide (f y ≤ k)).getLast? = none ↔ ∀ y ∈ xs, k < f y := by
  rw [List.getLast?_eq_none_iff]
  constructor
  · intro hnil y hy
    rw [← List.takeWhile_append_dropWhile (p := fun y => decide (f y ≤ k)) (l := xs), hnil,
      List.nil_append] at hy
    exact lt_of_mem_dropWhile hs k hy
  · intro hall
    cases xs with
    | nil => rfl
    | cons x xs => simp [not_le.mpr (hall x List.mem_cons_self)]

end Sorted

end UpperBound
