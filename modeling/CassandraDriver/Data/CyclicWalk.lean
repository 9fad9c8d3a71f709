import Mathlib.Data.List.Rotate

/-!
# Clockwise walks over a ring

A ring is a non-empty list read cyclically. `cyclicWalk l i k` lists the `k` entries met
walking it from position `i`, stepping with wrap-around after the last entry, the way an
iterator that is reset to `begin()` on reaching `end()` does. Walks of at most one lap are
the prefixes of `l.rotate i`, so one lap visits every entry exactly once.
-/

namespace CyclicWalk

variable {β γ : Type*}

/-- Step a position of a ring of length `n` forward, wrapping to `0` past the last entry. -/
def advance (n i : Nat) : Nat := if i + 1 = n then 0 else i + 1

lemma advance_eq_mod {n i : Nat} (h : i < n) : advance n i = (i + 1) % n := by
  unfold advance
  split
  · simp [*]
  · rw [Nat.mod_eq_of_lt (by omega)]

lemma advance_lt {n i : Nat} (h : i < n) : advance n i < n := by
  unfold advance
  split <;> omega

/-- The entries met in `k` steps from position `i`, one per step. -/
def cyclicWalk (l : List β) (i : Nat) : Nat → List β
  | 0 => []
  | k + 1 =>
    match l[i]? with
    | some b => b :: cyclicWalk l (advance l.length i) k
    | none => []

@[simp] lemma cyclicWalk_zero (l : List β) (i : Nat) : cyclicWalk l i 0 = [] := rfl

lemma cyclicWalk_succ {l : List β} {i : Nat} (h : i < l.length) (k : Nat) :
    cyclicWalk l i (k + 1) = l[i] :: cyclicWalk l (advance l.length i) k := by
  simp [cyclicWalk, List.getElem?_eq_getElem h]

@[simp] lemma length_cyclicWalk {l : List β} {i : Nat} (h : i < l.length) (k : Nat) :
    (cyclicWalk l i k).length = k := by
  induction k generalizing i with
  | zero => rfl
  | succ k ih => simp [cyclicWalk_succ h, ih (advance_lt h)]

/-- The `j`-th step of a walk from `i` lands on position `(i + j) mod n`. -/
lemma getElem?_cyclicWalk {l : List β} {i : Nat} (h : i < l.length) {k j : Nat} (hj : j < k) :
    (cyclicWalk l i k)[j]? = l[(i + j) % l.length]? := by
  induction k generalizing i j with
  | zero => omega
  | succ k ih =>
    rw [cyclicWalk_succ h]
    cases j with
    | zero => simp [Nat.mod_eq_of_lt h, List.getElem?_eq_getElem h]
    | succ j =>
      rw [List.getElem?_cons_succ, ih (advance_lt h) (by omega), advance_eq_mod h,
        Nat.mod_add_mod]
      congr 2
      omega

/-- A walk of at most one lap is a prefix of the rotated ring. -/
theorem cyclicWalk_eq_take_rotate {l : List β} {i k : Nat} (h : i < l.length)
    (hk : k ≤ l.length) : cyclicWalk l i k = (l.rotate i).take k := by
  apply List.ext_getElem?
  intro j
  by_cases hj : j < k
  · rw [getElem?_cyclicWalk h hj, List.getElem?_take_of_lt hj,
      List.getElem?_rotate (by omega), Nat.add_comm]
  · rw [List.getElem?_eq_none (by simp [length_cyclicWalk h]; omega),
      List.getElem?_eq_none (by simp; omega)]

/-- A full lap from any position is the ring rotated to that position. -/
theorem cyclicWalk_length_eq_rotate {l : List β} {i : Nat} (h : i < l.length) :
    cyclicWalk l i l.length = l.rotate i := by
  rw [cyclicWalk_eq_take_rotate h le_rfl, List.take_of_length_le (by simp)]

lemma map_cyclicWalk (f : β → γ) {l : List β} {i : Nat} (k : Nat) :
    (cyclicWalk l i k).map f = cyclicWalk (l.map f) i k := by
  induction k generalizing i with
  | zero => rfl
  | succ k ih =>
    by_cases h : i < l.length
    · rw [cyclicWalk_succ h, cyclicWalk_succ (by simpa using h)]
      simp [ih]
    · simp [cyclicWalk, List.getElem?_eq_none (Nat.le_of_not_lt h)]

end CyclicWalk

/-! ### First distinct entries -/

namespace List

variable {β : Type*} [BEq β] [LawfulBEq β]

/-- A list without repeated entries is its own list of first occurrences. -/
lemma eraseDups_of_nodup {l : List β} (h : l.Nodup) : l.eraseDups = l := by
  induction l with
  | nil => rfl
  | cons a l ih =>
    obtain ⟨ha, hl⟩ := List.nodup_cons.mp h
    have hfilter : l.filter (fun b => !b == a) = l := by
      rw [List.filter_eq_self]
      intro b hb
      have hba : b ≠ a := fun hba => ha (hba ▸ hb)
      simpa using hba
    rw [List.eraseDups_cons, hfilter, ih hl]

end List
