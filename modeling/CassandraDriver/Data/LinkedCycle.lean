import Mathlib.Data.List.GetD
import Mathlib.Dynamics.PeriodicPts.Defs

/-!
# Cycles of successor pointers

A heap of cells that each name a successor is a function `next : α → α`. A list of cells is
linked to `z` (`Links next l z`) when each cell names the one after it and the last one names
`z`; a list `a :: l` linked to its own first cell `a` is a cycle. Rotating a cycle
(`Links.rotate_append`), inserting a cell after one of its cells (`Links.insert`) and changing
the successor of cells outside it (`Links.congr`) keep it a cycle. Walking `next` from any cell
of a cycle stays in the cycle and meets every one of its cells (`Links.iterate_mem`,
`Links.exists_iterate_eq`): the cells reachable from one of them are exactly the cycle.
-/

namespace LinkedCycle

variable {α : Type*}

/-- `Links next l z`: every cell of `l` names the next one of `l` as its successor, and the last
one names `z`. -/
def Links (next : α → α) : List α → α → Prop
  | [], _ => True
  | a :: l, z => next a = l.headD z ∧ Links next l z

variable {next next' : α → α} {l l₁ l₂ : List α} {a x y z : α}

@[simp] lemma links_nil (z : α) : Links next [] z := trivial

@[simp] lemma links_cons : Links next (a :: l) z ↔ next a = l.headD z ∧ Links next l z :=
  Iff.rfl

lemma headD_append (l₁ l₂ : List α) (z : α) :
    (l₁ ++ l₂).headD z = l₁.headD (l₂.headD z) := by
  cases l₁ <;> rfl

lemma links_append :
    Links next (l₁ ++ l₂) z ↔ Links next l₁ (l₂.headD z) ∧ Links next l₂ z := by
  induction l₁ with
  | nil => simp
  | cons a l₁ ih => simp [ih, and_assoc]

/-- Only the successors of the cells of the list matter. -/
lemma Links.congr (h : Links next l z) (heq : ∀ x ∈ l, next' x = next x) : Links next' l z := by
  induction l with
  | nil => trivial
  | cons a l ih =>
    obtain ⟨ha, hl⟩ := h
    exact ⟨(heq a (List.mem_cons_self ..)).trans ha,
      ih hl fun x hx => heq x (List.mem_cons_of_mem _ hx)⟩

/-- The successor of a cell is a cell of the list or the end `z`. -/
lemma Links.next_mem (h : Links next l z) (hx : x ∈ l) : next x ∈ l ∨ next x = z := by
  induction l with
  | nil => simp at hx
  | cons a l ih =>
    obtain ⟨ha, hl⟩ := h
    rcases List.mem_cons.mp hx with rfl | hx
    · cases l with
      | nil => exact .inr ha
      | cons b l => exact .inl (ha ▸ List.mem_cons_of_mem _ (List.mem_cons_self ..))
    · exact (ih hl hx).imp_left (List.mem_cons_of_mem _)

/-- A cycle turned to start at another of its cells is a cycle. -/
lemma Links.rotate_append (h : Links next (a :: l₁ ++ b :: l₂) a) :
    Links next (b :: l₂ ++ a :: l₁) b := by
  obtain ⟨h₁, hb, h₂⟩ := links_append.mp h
  exact links_append.mpr ⟨⟨hb, h₂⟩, h₁⟩

/-- A cell `y` put after the cell `x`: `x` names `y`, and `y` names what `x` named. -/
lemma Links.insert (h : Links next (l₁ ++ x :: l₂) z) (hx : next' x = y) (hy : next' y = next x)
    (heq : ∀ w ∈ l₁ ++ l₂, next' w = next w) : Links next' (l₁ ++ x :: y :: l₂) z := by
  obtain ⟨h₁, hx₂, h₂⟩ := links_append.mp h
  refine links_append.mpr ⟨(h₁.congr fun w hw => heq w (List.mem_append_left _ hw)), hx, ?_,
    h₂.congr fun w hw => heq w (List.mem_append_right _ hw)⟩
  rw [hy, hx₂]

/-- `i` steps from the first cell reach the `i`-th cell, or `z` after the last one. -/
lemma Links.iterate_headD (h : Links next l z) {i : Nat} (hi : i ≤ l.length) :
    next^[i] (l.headD z) = (l ++ [z]).getD i z := by
  induction l generalizing i with
  | nil => simp_all
  | cons a l ih =>
    obtain ⟨ha, hl⟩ := h
    cases i with
    | zero => rfl
    | succ i =>
      rw [Function.iterate_succ_apply, List.headD_cons, ha, ih hl (by simpa using hi)]
      rfl

section Cycle

variable (h : Links next (a :: l) a)
include h

/-- A lap of the cycle brings the first cell back. -/
lemma Links.isPeriodicPt : Function.IsPeriodicPt next (l.length + 1) a := by
  have hlap := h.iterate_headD (i := l.length + 1) le_rfl
  rw [List.headD_cons] at hlap
  rw [Function.IsPeriodicPt, Function.IsFixedPt, hlap]
  simp [List.getD_eq_getElem?_getD]

/-- The `k`-th step from the first cell is the cell at `k` modulo the length. -/
lemma Links.iterate_eq_get (k : Nat) :
    next^[k] a = (a :: l).get ⟨k % (l.length + 1), Nat.mod_lt _ (Nat.succ_pos _)⟩ := by
  rw [← h.isPeriodicPt.iterate_mod_apply]
  have hlt : k % (l.length + 1) < l.length + 1 := Nat.mod_lt _ (Nat.succ_pos _)
  have hwalk := h.iterate_headD (i := k % (l.length + 1)) (by simp; omega)
  rw [List.headD_cons] at hwalk
  rw [hwalk, List.getD_eq_getElem _ _ (by simp; omega),
    List.getElem_append_left (by simpa using hlt), List.get_eq_getElem]

/-- Walking from a cell of the cycle stays in the cycle. -/
lemma Links.iterate_mem (hx : x ∈ a :: l) (k : Nat) : next^[k] x ∈ a :: l := by
  induction k generalizing x with
  | zero => exact hx
  | succ k ih =>
    rw [Function.iterate_succ_apply]
    rcases h.next_mem hx with hnext | hnext
    · exact ih hnext
    · exact ih (hnext ▸ List.mem_cons_self ..)

/-- Walking from a cell of the cycle meets every cell of it. -/
lemma Links.exists_iterate_eq (hx : x ∈ a :: l) (hy : y ∈ a :: l) : ∃ k, next^[k] x = y := by
  obtain ⟨i, hi, rfl⟩ := List.getElem_of_mem hx
  obtain ⟨j, hj, rfl⟩ := List.getElem_of_mem hy
  have hlen : (a :: l).length = l.length + 1 := rfl
  have hx : (a :: l)[i] = next^[i] a := by
    rw [h.iterate_eq_get, List.get_eq_getElem]
    congr 1
    exact (Nat.mod_eq_of_lt hi).symm
  refine ⟨j + (l.length + 1) - i, ?_⟩
  rw [hx, ← Function.iterate_add_apply, h.iterate_eq_get, List.get_eq_getElem]
  congr 1
  show (j + (l.length + 1) - i + i) % (l.length + 1) = j
  rw [show j + (l.length + 1) - i + i = j + (l.length + 1) by omega, Nat.add_mod_right,
    Nat.mod_eq_of_lt (by omega)]

end Cycle

end LinkedCycle
