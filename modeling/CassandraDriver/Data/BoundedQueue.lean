import Mathlib

/-!
# Bounded FIFO queues

A FIFO queue that holds at most `capacity` values: `enqueue` refuses a value when the queue is
full, and `dequeue` takes the oldest value, refusing when the queue is empty. The bound is a field
of the structure, so no queue over its capacity can be built.

This is what a request queue is for, stated without its ring, its indices or its threads.
-/

/-- A FIFO queue of at most `capacity` values, oldest first. -/
@[ext]
structure BoundedQueue (β : Type) where
  items : List β
  capacity : Nat
  length_le : items.length ≤ capacity

namespace BoundedQueue

variable {β : Type}

/-- An empty queue. -/
def empty (capacity : Nat) : BoundedQueue β := ⟨[], capacity, Nat.zero_le _⟩

variable {b b' : BoundedQueue β} {x : β}

/-- The queue has room for one more value. -/
def HasRoom (b : BoundedQueue β) : Prop := b.items.length < b.capacity

instance : DecidablePred (HasRoom (β := β)) := fun b =>
  inferInstanceAs (Decidable (b.items.length < b.capacity))

/-- Add a value at the back of a queue with room. -/
def push (b : BoundedQueue β) (x : β) (h : b.HasRoom) : BoundedQueue β :=
  ⟨b.items ++ [x], b.capacity, by rw [List.length_append, List.length_singleton]; exact h⟩

@[simp] lemma push_items (h : b.HasRoom) : (b.push x h).items = b.items ++ [x] := rfl
@[simp] lemma push_capacity (h : b.HasRoom) : (b.push x h).capacity = b.capacity := rfl

/-- Add a value at the back; `none` when the queue is full. -/
def enqueue (b : BoundedQueue β) (x : β) : Option (BoundedQueue β) :=
  if h : b.HasRoom then some (b.push x h) else none

/-- Take the value at the front; `none` when the queue is empty. -/
def dequeue (b : BoundedQueue β) : Option (β × BoundedQueue β) :=
  match b with
  | ⟨[], _, _⟩ => none
  | ⟨x :: rest, capacity, h⟩ =>
    some (x, ⟨rest, capacity, by rw [List.length_cons] at h; omega⟩)

lemma enqueue_of_hasRoom (h : b.HasRoom) : b.enqueue x = some (b.push x h) := by
  rw [enqueue, dif_pos h]

@[simp] lemma enqueue_eq_none_iff : b.enqueue x = none ↔ ¬b.HasRoom := by
  unfold enqueue HasRoom
  split_ifs with h <;> simp [h]

lemma enqueue_eq_some_iff :
    b.enqueue x = some b' ↔ b.HasRoom ∧ b'.items = b.items ++ [x] ∧ b'.capacity = b.capacity := by
  constructor
  · intro he
    have hroom : b.HasRoom := by
      by_contra hfull
      rw [enqueue_eq_none_iff.mpr hfull] at he
      cases he
    rw [enqueue_of_hasRoom hroom, Option.some.injEq] at he
    subst he
    exact ⟨hroom, rfl, rfl⟩
  · rintro ⟨hroom, hitems, hcap⟩
    rw [enqueue_of_hasRoom hroom]
    congr 1
    ext1
    · rw [push_items, hitems]
    · rw [push_capacity, hcap]

@[simp] lemma dequeue_eq_none_iff : b.dequeue = none ↔ b.items = [] := by
  rcases b with ⟨_ | ⟨y, rest⟩, capacity, h⟩ <;> simp [dequeue]

lemma dequeue_eq_some_iff {y : β} :
    b.dequeue = some (y, b') ↔ b.items = y :: b'.items ∧ b'.capacity = b.capacity := by
  rcases b with ⟨_ | ⟨z, rest⟩, capacity, h⟩
  · simp [dequeue]
  · constructor
    · intro he
      simp only [dequeue, Option.some.injEq, Prod.mk.injEq] at he
      obtain ⟨rfl, rfl⟩ := he
      exact ⟨rfl, rfl⟩
    · rintro ⟨hitems, hcap⟩
      simp only [List.cons.injEq] at hitems
      obtain ⟨rfl, hrest⟩ := hitems
      simp only [dequeue, Option.some.injEq, Prod.mk.injEq, true_and]
      ext1
      · exact hrest
      · exact hcap.symm

end BoundedQueue
