import CassandraDriver.Tls.RingBuffer
import CassandraDriver.Data.LinkedCycle
import Mathlib.Data.List.GetD
import Mathlib.Data.List.Perm.Subperm

/-!
# The invariant of the ring buffer

The ring of a `RingBuffer` is read as two lists of addresses: `live`, the buffers from the read
head to the write head, and `free`, the empty buffers after it. `live ++ free` is a cycle of
`next_` pointers from the read head (`LinkedCycle.Links`) that holds `head_` and only addresses
below `fresh`; every buffer of `live` but the last is full, every one but the first is read
from zero, and every buffer of `free` is empty (`Shape`). The bytes the buffer holds are those
of the buffers of `live` in order (`RingBuffer.contents`), and `length_` counts them (`Inv`).

The helpers the operations share keep the shape: `try_move_read_head` leaves a read head that
is not read to its end unless it is at zero (`Normal`), `try_allocate_for_write` gives a full
write head an empty successor, moving the write head to it appends it to `live`, and
`free_empty` keeps of `free` only its first buffer and `head_`.
-/

namespace CassandraDriver.Rb

open LinkedCycle

/-! ### Bytes -/

section Bytes

variable (data : Nat → UInt8)

@[simp] lemma bytesAt_zero (pos : Nat) : bytesAt data pos 0 = [] := rfl

lemma bytesAt_succ (pos n : Nat) : bytesAt data pos (n + 1) = data pos :: bytesAt data (pos + 1) n :=
  rfl

@[simp] lemma length_bytesAt (pos n : Nat) : (bytesAt data pos n).length = n := by
  induction n generalizing pos with
  | zero => rfl
  | succ n ih => simp [bytesAt_succ, ih]

lemma getElem_bytesAt {pos n i : Nat} (hi : i < (bytesAt data pos n).length) :
    (bytesAt data pos n)[i] = data (pos + i) := by
  induction n generalizing pos i with
  | zero => simp at hi
  | succ n ih =>
    cases i with
    | zero => simp [bytesAt_succ]
    | succ i =>
      simp only [bytesAt_succ, List.getElem_cons_succ]
      rw [ih (by simp at hi ⊢; omega)]
      congr 1
      omega

lemma take_bytesAt (pos n m : Nat) :
    (bytesAt data pos n).take m = bytesAt data pos (min m n) := by
  induction n generalizing pos m with
  | zero => simp
  | succ n ih =>
    cases m with
    | zero => simp
    | succ m => simp [bytesAt_succ, ih, Nat.succ_min_succ]

lemma drop_bytesAt (pos n m : Nat) :
    (bytesAt data pos n).drop m = bytesAt data (pos + m) (n - m) := by
  induction n generalizing pos m with
  | zero => simp
  | succ n ih =>
    cases m with
    | zero => simp
    | succ m =>
      simp only [bytesAt_succ, List.drop_succ_cons, ih]
      congr 1 <;> omega

lemma bytesAt_add (pos m n : Nat) :
    bytesAt data pos (m + n) = bytesAt data pos m ++ bytesAt data (pos + m) n := by
  induction m generalizing pos with
  | zero => simp
  | succ m ih =>
    rw [Nat.succ_add, bytesAt_succ, bytesAt_succ, ih, List.cons_append, Nat.add_right_comm, Nat.add_assoc]

/-- Only the bytes in the range matter. -/
lemma bytesAt_congr {data' : Nat → UInt8} {pos n : Nat}
    (h : ∀ i, pos ≤ i → i < pos + n → data' i = data i) :
    bytesAt data' pos n = bytesAt data pos n := by
  apply List.ext_getElem (by simp)
  intro i h₁ h₂
  rw [getElem_bytesAt, getElem_bytesAt]
  exact h _ (by omega) (by simp at h₁; omega)

/-- The bytes `memcpy` has copied. -/
lemma bytesAt_copyInto (pos : Nat) (src : List UInt8) {offset n : Nat}
    (h : offset + n ≤ src.length) :
    bytesAt (copyInto data pos src offset n) pos n = (src.drop offset).take n := by
  apply List.ext_getElem (by simp; omega)
  intro i h₁ h₂
  simp only [length_bytesAt] at h₁
  rw [getElem_bytesAt, List.getElem_take, List.getElem_drop, copyInto,
    if_pos ⟨by omega, by omega⟩, Nat.add_sub_cancel_left, List.getD_eq_getElem _ _ (by omega)]

/-- `memcpy` leaves the bytes below its destination alone. -/
lemma bytesAt_copyInto_of_le (pos : Nat) (src : List UInt8) (offset n : Nat) {start k : Nat}
    (h : start + k ≤ pos) :
    bytesAt (copyInto data pos src offset n) start k = bytesAt data start k :=
  bytesAt_congr data fun i _ hi => by rw [copyInto, if_neg (by omega)]

/-- The inner loop of `index_of` finds the first `delim` of the bytes it walks. -/
lemma scan_eq_findIdx (delim : UInt8) (pos n : Nat) :
    RingBuffer.scan data delim pos n = (bytesAt data pos n).findIdx (· == delim) := by
  induction n generalizing pos with
  | zero => rfl
  | succ n ih =>
    rw [RingBuffer.scan, bytesAt_succ, List.findIdx_cons, ih]
    by_cases h : data pos = delim
    · simp [h]
    · simp [h, beq_eq_false_iff_ne.mpr h]

end Bytes

namespace Buffer

/-- Moving the read position on by `k` drops `k` bytes. -/
lemma bytes_readPos_add (b : Buffer) (k : Nat) :
    { b with readPos := b.readPos + k }.bytes = b.bytes.drop k := by
  simp only [bytes, drop_bytesAt]
  congr 1
  omega

/-- Moving the write position on appends the bytes stored from it, when the bytes below it are
kept. -/
lemma bytes_of_writePos_le {b b' : Buffer} (hr : b'.readPos = b.readPos)
    (hle : b.readPos ≤ b.writePos) (hw : b.writePos ≤ b'.writePos)
    (hdata : ∀ i < b.writePos, b'.data i = b.data i) :
    b'.bytes = b.bytes ++ bytesAt b'.data b.writePos (b'.writePos - b.writePos) := by
  rw [bytes, bytes, hr, show b'.writePos - b.readPos = (b.writePos - b.readPos) +
    (b'.writePos - b.writePos) by omega, bytesAt_add, Nat.add_sub_cancel' hle]
  congr 1
  exact bytesAt_congr _ fun i _ hi => hdata i (by omega)

@[simp] lemma bytes_reset (b : Buffer) : { b with readPos := 0, writePos := 0 }.bytes = [] := rfl

lemma bytes_eq_nil_iff (b : Buffer) : b.bytes = [] ↔ b.writePos ≤ b.readPos := by
  rw [bytes, ← List.length_eq_zero_iff, length_bytesAt]
  omega

end Buffer

namespace RingBuffer

/-- The bytes of the buffers of `live`, in order. -/
def contents (rb : RingBuffer) (live : List Nat) : List UInt8 :=
  live.flatMap fun p => (rb.buffers p).bytes

variable {rb rb' : RingBuffer} {live free : List Nat}

@[simp] lemma contents_nil : rb.contents [] = [] := rfl

@[simp] lemma contents_cons (p : Nat) :
    rb.contents (p :: live) = (rb.buffers p).bytes ++ rb.contents live :=
  List.flatMap_cons ..

@[simp] lemma contents_append (live₁ live₂ : List Nat) :
    rb.contents (live₁ ++ live₂) = rb.contents live₁ ++ rb.contents live₂ :=
  List.flatMap_append ..

lemma contents_congr (h : ∀ p ∈ live, (rb'.buffers p).bytes = (rb.buffers p).bytes) :
    rb'.contents live = rb.contents live :=
  List.flatMap_congr h

end RingBuffer

/-! ### The shape of the ring -/

/-- The ring from the read head: the buffers of `live` up to the write head, then those of
`free`. -/
structure Shape (rb : RingBuffer) (live free : List Nat) : Prop where
  nodup : (live ++ free).Nodup
  links : Links rb.nextOf (live ++ free) rb.readHead
  head_mem : head ∈ live ++ free
  lt_fresh : ∀ p ∈ live ++ free, p < rb.fresh
  head?_live : live.head? = some rb.readHead
  getLast?_live : live.getLast? = some rb.writeHead
  readPos_le : ∀ p ∈ live, (rb.buffers p).readPos ≤ (rb.buffers p).writePos
  writePos_le : ∀ p ∈ live, (rb.buffers p).writePos ≤ bufferLength
  full : ∀ p ∈ live.dropLast, (rb.buffers p).writePos = bufferLength
  readPos_tail : ∀ p ∈ live.tail, (rb.buffers p).readPos = 0
  empty : ∀ p ∈ free, (rb.buffers p).readPos = 0 ∧ (rb.buffers p).writePos = 0

/-- What `try_move_read_head` leaves: a read head read to its write position is at zero. -/
def Normal (rb : RingBuffer) : Prop :=
  (rb.buffers rb.readHead).readPos = (rb.buffers rb.readHead).writePos →
    (rb.buffers rb.readHead).readPos = 0

/-- The invariant: the shape, a normal read head, and `length_` the number of bytes held. -/
structure Inv (rb : RingBuffer) (live free : List Nat) : Prop extends Shape rb live free where
  normal : Normal rb
  length_eq : rb.length = (rb.contents live).length

namespace Shape

variable {rb : RingBuffer} {live free : List Nat} (h : Shape rb live free)
include h

/-- `length_` is not part of the shape. -/
lemma setLength (n : Nat) : Shape { rb with length := n } live free :=
  ⟨h.nodup, h.links, h.head_mem, h.lt_fresh, h.head?_live, h.getLast?_live, h.readPos_le,
    h.writePos_le, h.full, h.readPos_tail, h.empty⟩

lemma live_eq_cons : ∃ rest, live = rb.readHead :: rest := by
  have hhead := h.head?_live
  cases live with
  | nil => simp at hhead
  | cons p rest =>
    obtain rfl := Option.some.inj hhead
    exact ⟨rest, rfl⟩

lemma live_eq_append : ∃ init, live = init ++ [rb.writeHead] :=
  List.getLast?_eq_some_iff.mp h.getLast?_live

lemma readHead_mem : rb.readHead ∈ live := by
  obtain ⟨rest, hlive⟩ := h.live_eq_cons
  exact hlive ▸ List.mem_cons_self ..

lemma writeHead_mem : rb.writeHead ∈ live := by
  obtain ⟨init, hlive⟩ := h.live_eq_append
  exact hlive ▸ List.mem_append_right _ (List.mem_singleton_self _)

lemma fresh_not_mem : rb.fresh ∉ live ++ free := fun hmem =>
  Nat.lt_irrefl _ (h.lt_fresh _ hmem)

lemma fresh_pos : 0 < rb.fresh :=
  Nat.lt_of_le_of_lt (Nat.zero_le _) (h.lt_fresh _ (List.mem_append_left _ h.readHead_mem))

/-- The ring has fewer buffers than addresses given out. -/
lemma length_le_fresh : (live ++ free).length ≤ rb.fresh := by
  have hsub := h.nodup.subperm fun p hp => List.mem_range.mpr (h.lt_fresh p hp)
  simpa using hsub.length_le

/-- The successor of the write head is the first free buffer, or the read head. -/
lemma nextOf_writeHead : rb.nextOf rb.writeHead = free.headD rb.readHead := by
  obtain ⟨init, hlive⟩ := h.live_eq_append
  have hlinks := h.links
  rw [hlive, List.append_assoc, links_append] at hlinks
  exact hlinks.2.1

/-- With the heads on one buffer, `live` is that buffer alone. -/
lemma live_eq_singleton (hrw : rb.readHead = rb.writeHead) : live = [rb.readHead] := by
  obtain ⟨rest, hlive⟩ := h.live_eq_cons
  obtain ⟨init, hlive'⟩ := h.live_eq_append
  cases rest with
  | nil => exact hlive
  | cons s rest =>
    have hnd := h.nodup
    have hlast : rb.writeHead ∈ s :: rest := by
      have hget := h.getLast?_live
      rw [hlive, List.getLast?_cons_cons] at hget
      exact List.mem_of_getLast? hget
    rw [hlive, List.cons_append, List.nodup_cons] at hnd
    exact absurd (List.mem_append_left _ (hrw ▸ hlast)) hnd.1

/-- With the heads on two buffers, `live` holds two buffers at least. -/
lemma live_eq_cons_cons (hrw : rb.readHead ≠ rb.writeHead) :
    ∃ s rest, live = rb.readHead :: s :: rest := by
  obtain ⟨rest, hlive⟩ := h.live_eq_cons
  cases rest with
  | nil =>
    have hget := h.getLast?_live
    rw [hlive, List.getLast?_singleton] at hget
    exact absurd (Option.some.inj hget) hrw
  | cons s rest => exact ⟨s, rest, hlive⟩

/-- The buffers reachable from `head_` by `next_` pointers are those of the ring. -/
lemma reachable_iff (p : Nat) : (∃ k, rb.nextOf^[k] head = p) ↔ p ∈ live ++ free := by
  obtain ⟨rest, hlive⟩ := h.live_eq_cons
  have hring : live ++ free = rb.readHead :: (rest ++ free) := by rw [hlive, List.cons_append]
  -- the ring is a cycle through the read head, and `head_` is one of its buffers
  have hcycle := h.links
  have hhead := h.head_mem
  rw [hring] at hcycle hhead ⊢
  constructor
  · rintro ⟨k, rfl⟩
    exact hcycle.iterate_mem hhead k
  · exact hcycle.exists_iterate_eq hhead

end Shape

/-! ### `try_move_read_head` -/

namespace RingBuffer

variable {rb : RingBuffer} {live free : List Nat}

/-- The loop of `try_move_read_head` changes buffers and the read head only. -/
lemma tryMoveReadHeadLoop_fields (fuel : Nat) (rb : RingBuffer) :
    (tryMoveReadHeadLoop fuel rb).length = rb.length ∧
      (tryMoveReadHeadLoop fuel rb).writeHead = rb.writeHead ∧
      (tryMoveReadHeadLoop fuel rb).fresh = rb.fresh := by
  induction fuel generalizing rb with
  | zero => exact ⟨rfl, rfl, rfl⟩
  | succ fuel ih =>
    simp only [tryMoveReadHeadLoop]
    split
    · split <;> exact ih _
    · exact ⟨rfl, rfl, rfl⟩

@[simp] lemma length_tryMoveReadHead : rb.tryMoveReadHead.length = rb.length :=
  (tryMoveReadHeadLoop_fields _ _).1

@[simp] lemma writeHead_tryMoveReadHead : rb.tryMoveReadHead.writeHead = rb.writeHead :=
  (tryMoveReadHeadLoop_fields _ _).2.1

@[simp] lemma fresh_tryMoveReadHead : rb.tryMoveReadHead.fresh = rb.fresh :=
  (tryMoveReadHeadLoop_fields _ _).2.2

lemma tryMoveReadHeadLoop_of_normal (h : Normal rb) (fuel : Nat) :
    tryMoveReadHeadLoop fuel rb = rb := by
  cases fuel with
  | zero => rfl
  | succ fuel =>
    simp only [tryMoveReadHeadLoop]
    rw [if_neg fun hc => hc.1 (h hc.2)]

lemma tryMoveReadHead_of_normal (h : Normal rb) : rb.tryMoveReadHead = rb :=
  tryMoveReadHeadLoop_of_normal h _

end RingBuffer

/-- `try_move_read_head` makes the read head normal and keeps the bytes: a read head read to
its end is emptied, and moves on to the next buffer of `live` unless it is the write head. -/
lemma Shape.tryMoveReadHead {rb : RingBuffer} {live free : List Nat} (h : Shape rb live free) :
    ∃ live' free', Shape rb.tryMoveReadHead live' free' ∧ Normal rb.tryMoveReadHead ∧
      rb.tryMoveReadHead.contents live' = rb.contents live := by
  obtain ⟨fuel, hfuel⟩ : ∃ fuel, rb.fresh = fuel + 1 :=
    ⟨rb.fresh - 1, by have := h.fresh_pos; omega⟩
  rw [RingBuffer.tryMoveReadHead, hfuel]
  simp only [RingBuffer.tryMoveReadHeadLoop]
  by_cases hcond : (rb.buffers rb.readHead).readPos ≠ 0 ∧
      (rb.buffers rb.readHead).readPos = (rb.buffers rb.readHead).writePos
  · rw [if_pos hcond]
    set rb₁ := rb.modify rb.readHead fun b => { b with readPos := 0, writePos := 0 } with hrb₁
    have hnext₁ : rb₁.nextOf = rb.nextOf := RingBuffer.nextOf_modify _ _ _ fun _ => rfl
    have hempty : (rb.buffers rb.readHead).bytes = [] :=
      (Buffer.bytes_eq_nil_iff _).mpr hcond.2.ge
    have hother : ∀ p ≠ rb.readHead, rb₁.buffers p = rb.buffers p := fun p hp =>
      RingBuffer.modify_buffers_of_ne _ _ _ hp
    by_cases hrw : rb.readHead = rb.writeHead
    · -- the read head stays, emptied
      have hlive := h.live_eq_singleton hrw
      have hnormal : Normal rb₁ := fun _ => by simp [rb₁]
      have hfree : ∀ p ∈ free, p ≠ rb.readHead := by
        have hnd := h.nodup
        rw [hlive, List.singleton_append, List.nodup_cons] at hnd
        exact fun p hp hpr => hnd.1 (hpr ▸ hp)
      rw [if_neg (by simpa [rb₁] using hrw), RingBuffer.tryMoveReadHeadLoop_of_normal hnormal]
      refine ⟨live, free, ?_, hnormal, ?_⟩
      · subst hlive
        exact { nodup := h.nodup, links := hnext₁ ▸ h.links, head_mem := h.head_mem,
                lt_fresh := h.lt_fresh, head?_live := h.head?_live,
                getLast?_live := h.getLast?_live,
                readPos_le := by simp [rb₁], writePos_le := by simp [rb₁],
                full := by simp, readPos_tail := by simp,
                empty := fun p hp => by rw [hother p (hfree p hp)]; exact h.empty p hp }
      · rw [hlive]
        simp [rb₁, hempty]
    · -- the read head moves on to the next buffer of `live`
      obtain ⟨s, rest, hlive⟩ := h.live_eq_cons_cons hrw
      have hnd := h.nodup
      rw [hlive] at hnd
      have hperm : ((s :: rest) ++ (free ++ [rb.readHead])).Perm (live ++ free) := by
        rw [hlive, ← List.append_assoc]
        exact List.perm_append_comm
      have hr : rb.readHead ∉ s :: rest ++ free := (List.nodup_cons.mp hnd).1
      have hlinks := h.links
      rw [hlive] at hlinks
      have hs : rb.nextOf rb.readHead = s := hlinks.1
      set rb₂ : RingBuffer := { rb₁ with readHead := rb₁.nextOf rb₁.readHead } with hrb₂
      have hnext₂ : rb₂.nextOf = rb.nextOf := hnext₁
      have hhead₂ : rb₂.readHead = s := by simp [rb₂, rb₁, hnext₁, hs]
      have hkeep : ∀ p ∈ s :: rest ++ free, rb₂.buffers p = rb.buffers p := fun p hp =>
        hother p fun hpr => hr (hpr ▸ hp)
      have hlive' : ∀ p ∈ s :: rest, rb₂.buffers p = rb.buffers p := fun p hp =>
        hkeep p (List.mem_append_left _ hp)
      have hmem : ∀ p ∈ s :: rest, p ∈ live := fun p hp => hlive ▸ List.mem_cons_of_mem _ hp
      have hnormal : Normal rb₂ := fun _ => by
        rw [hhead₂, hlive' s (List.mem_cons_self ..)]
        exact h.readPos_tail s (by simp [hlive])
      rw [if_pos (by simpa [rb₁] using hrw), RingBuffer.tryMoveReadHeadLoop_of_normal hnormal]
      refine ⟨s :: rest, free ++ [rb.readHead], ?_, hnormal, ?_⟩
      · exact { nodup := hperm.nodup_iff.mpr h.nodup
                links := by
                  have hrot := Links.rotate_append
                    (show Links rb.nextOf ([rb.readHead] ++ s :: (rest ++ free)) rb.readHead
                      from hlinks)
                  rw [hnext₂, hhead₂]
                  simpa using hrot
                head_mem := hperm.mem_iff.mpr h.head_mem
                lt_fresh := fun p hp => h.lt_fresh p (hperm.mem_iff.mp hp)
                head?_live := by rw [hhead₂]; rfl
                getLast?_live := by
                  have hget := h.getLast?_live
                  rwa [hlive, List.getLast?_cons_cons] at hget
                readPos_le := fun p hp => by
                  rw [hlive' p hp]
                  exact h.readPos_le p (hmem p hp)
                writePos_le := fun p hp => by
                  rw [hlive' p hp]
                  exact h.writePos_le p (hmem p hp)
                full := fun p hp => by
                  rw [hlive' p (List.mem_of_mem_dropLast hp)]
                  exact h.full p (by rw [hlive, List.dropLast_cons_cons]; exact List.mem_cons_of_mem _ hp)
                readPos_tail := fun p hp => by
                  rw [hlive' p (List.mem_cons_of_mem _ hp)]
                  exact h.readPos_tail p (by rw [hlive]; exact List.mem_cons_of_mem _ hp)
                empty := fun p hp => by
                  rcases List.mem_append.mp hp with hp | hp
                  · rw [hkeep p (List.mem_append_right _ hp)]
                    exact h.empty p hp
                  · obtain rfl := List.mem_singleton.mp hp
                    simp [rb₂, rb₁] }
      · rw [hlive, RingBuffer.contents_cons rb.readHead, hempty, List.nil_append]
        exact RingBuffer.contents_congr fun p hp => by rw [hlive' p hp]
  · rw [if_neg hcond]
    exact ⟨live, free, h, fun heq => by_contra fun hne => hcond ⟨hne, heq⟩, rfl⟩

/-! ### `try_allocate_for_write` and the moves of the write head -/

namespace RingBuffer

variable {rb : RingBuffer}

/-- `try_allocate_for_write` changes successors only, below `fresh`. -/
lemma tryAllocateForWrite_buffers_of_ne {p : Nat} (hp : p ≠ rb.fresh) :
    rb.tryAllocateForWrite.buffers p = { rb.buffers p with next := rb.tryAllocateForWrite.nextOf p } := by
  dsimp only [tryAllocateForWrite, nextOf]
  split
  · by_cases hw : p = rb.writeHead
    · subst hw
      simp [setNext, Function.update_of_ne hp]
    · simp [setNext, modify, Function.update_of_ne hw, Function.update_of_ne hp]
  · rfl

@[simp] lemma tryAllocateForWrite_length : rb.tryAllocateForWrite.length = rb.length := by
  dsimp only [tryAllocateForWrite]
  split <;> rfl

@[simp] lemma tryAllocateForWrite_readHead : rb.tryAllocateForWrite.readHead = rb.readHead := by
  dsimp only [tryAllocateForWrite]
  split <;> rfl

@[simp] lemma tryAllocateForWrite_writeHead : rb.tryAllocateForWrite.writeHead = rb.writeHead := by
  dsimp only [tryAllocateForWrite]
  split <;> rfl

lemma tryAllocateForWrite_of_ne (h : (rb.buffers rb.writeHead).writePos ≠ bufferLength) :
    rb.tryAllocateForWrite = rb := by
  dsimp only [tryAllocateForWrite]
  rw [if_neg fun hc => h hc.1]

end RingBuffer

section Helpers

variable {rb : RingBuffer} {live free : List Nat}

/-- A full write head gets an empty successor: the first free buffer, or a new one linked in
before the read head. -/
lemma Shape.tryAllocateForWrite (h : Shape rb live free)
    (hfull : (rb.buffers rb.writeHead).writePos = bufferLength) :
    ∃ f free', Shape rb.tryAllocateForWrite live (f :: free') := by
  have hnextw := h.nextOf_writeHead
  cases free with
  | cons f free =>
    -- the successor is free and empty: nothing is allocated
    have hf : f ≠ rb.readHead := fun hfr => by
      have hnd := h.nodup
      exact (List.nodup_append.mp hnd).2.2 _ h.readHead_mem _ (List.mem_cons_self ..) hfr.symm
    have hno : rb.tryAllocateForWrite = rb := by
      dsimp only [RingBuffer.tryAllocateForWrite]
      rw [if_neg]
      rintro ⟨-, hc⟩
      change rb.nextOf rb.writeHead = rb.readHead ∨ (rb.buffers (rb.nextOf rb.writeHead)).writePos ≠ 0 at hc
      rw [hnextw] at hc
      exact hc.elim hf fun hw => hw (h.empty f (List.mem_cons_self ..)).2
    exact ⟨f, free, by rw [hno]; exact h⟩
  | nil =>
    -- the successor is the read head: a new buffer goes between them
    obtain ⟨init, hlive⟩ := h.live_eq_append
    replace hnextw : (rb.buffers rb.writeHead).next = rb.readHead := hnextw
    have hfresh := h.fresh_not_mem
    rw [List.append_nil] at hfresh
    have hcond : (rb.buffers rb.writeHead).writePos = bufferLength ∧
        ((rb.buffers rb.writeHead).next = rb.readHead ∨
          (rb.buffers (rb.buffers rb.writeHead).next).writePos ≠ 0) := ⟨hfull, .inl hnextw⟩
    have hnw : rb.writeHead ≠ rb.fresh := fun heq => hfresh (heq ▸ h.writeHead_mem)
    set rb' := rb.tryAllocateForWrite with hrb'
    have hbuf : ∀ p ≠ rb.fresh, rb'.buffers p = { rb.buffers p with next := rb'.nextOf p } :=
      fun p hp => RingBuffer.tryAllocateForWrite_buffers_of_ne hp
    have hnext : rb'.nextOf = Function.update (Function.update rb.nextOf rb.fresh rb.readHead)
        rb.writeHead rb.fresh := by
      funext p
      simp only [hrb', RingBuffer.tryAllocateForWrite, if_pos hcond, RingBuffer.nextOf,
        RingBuffer.setNext, RingBuffer.modify]
      by_cases hw : p = rb.writeHead
      · subst hw
        simp
      · by_cases hp : p = rb.fresh
        · subst hp
          simp [hw, Buffer.new, hnextw]
        · simp [hw, hp, RingBuffer.nextOf]
    have hnew : rb'.buffers rb.fresh = Buffer.new rb.readHead := by
      simp only [hrb', RingBuffer.tryAllocateForWrite, if_pos hcond, RingBuffer.setNext,
        RingBuffer.modify, Function.update_of_ne hnw.symm, Function.update_self]
      rw [hnextw]
    have hkeep : ∀ p ∈ live, rb'.buffers p = { rb.buffers p with next := rb'.nextOf p } :=
      fun p hp => hbuf p fun hpf => hfresh (hpf ▸ hp)
    refine ⟨rb.fresh, [], ?_⟩
    have hlinks := h.links
    rw [List.append_nil, hlive] at hlinks
    have hr' : rb'.readHead = rb.readHead := RingBuffer.tryAllocateForWrite_readHead
    have hf' : rb'.fresh = rb.fresh + 1 := by
      simp only [hrb', RingBuffer.tryAllocateForWrite, if_pos hcond]
      rfl
    exact { nodup := List.nodup_append_comm.mpr
              (List.nodup_cons.mpr ⟨hfresh, by simpa using h.nodup⟩)
            links := by
              rw [hlive, List.append_assoc, List.singleton_append, hr']
              refine Links.insert hlinks ?_ ?_ fun w hw => ?_
              · simp [hnext]
              · simp only [hnext, Function.update_of_ne hnw.symm, Function.update_self]
                exact hnextw.symm
              · have hw' : w ∈ init := by simpa using hw
                have hwf : w ≠ rb.fresh := fun hwf => hfresh (hwf ▸ by simp [hlive, hw'])
                have hww : w ≠ rb.writeHead := fun hww => by
                  have hnd := h.nodup
                  rw [List.append_nil, hlive, List.nodup_append] at hnd
                  exact hnd.2.2 _ hw' _ (List.mem_singleton_self _) hww
                simp [hnext, hww, hwf]
            head_mem := by
              have := h.head_mem
              rw [List.append_nil] at this
              exact List.mem_append_left _ this
            lt_fresh := fun p hp => by
              rcases List.mem_append.mp hp with hp | hp
              · rw [hf']
                exact Nat.lt_succ_of_lt (h.lt_fresh p (by simpa using hp))
              · rw [List.mem_singleton.mp hp, hf']
                exact Nat.lt_succ_self _
            head?_live := by rw [hrb', RingBuffer.tryAllocateForWrite_readHead]; exact h.head?_live
            getLast?_live := by
              rw [hrb', RingBuffer.tryAllocateForWrite_writeHead]
              exact h.getLast?_live
            readPos_le := fun p hp => by rw [hkeep p hp]; exact h.readPos_le p hp
            writePos_le := fun p hp => by rw [hkeep p hp]; exact h.writePos_le p hp
            full := fun p hp => by
              rw [hkeep p (List.mem_of_mem_dropLast hp)]
              exact h.full p hp
            readPos_tail := fun p hp => by
              rw [hkeep p (List.mem_of_mem_tail hp)]
              exact h.readPos_tail p hp
            empty := fun p hp => by
              rw [List.mem_singleton.mp hp, hnew]
              exact ⟨rfl, rfl⟩ }

/-- Moving a full write head on to its empty successor `f` appends `f` to `live`. -/
lemma Shape.moveWriteHead {f : Nat} (h : Shape rb live (f :: free))
    (hfull : (rb.buffers rb.writeHead).writePos = bufferLength) :
    Shape { rb with writeHead := rb.nextOf rb.writeHead } (live ++ [f]) free := by
  have hf : rb.nextOf rb.writeHead = f := h.nextOf_writeHead
  obtain ⟨init, hlive⟩ := h.live_eq_append
  have hempty := h.empty f (List.mem_cons_self ..)
  have hring : live ++ [f] ++ free = live ++ f :: free := by simp
  exact { nodup := hring ▸ h.nodup
          links := hring ▸ h.links
          head_mem := hring ▸ h.head_mem
          lt_fresh := hring ▸ h.lt_fresh
          head?_live := by
            obtain ⟨rest, hrest⟩ := h.live_eq_cons
            rw [hrest]
            exact rfl
          getLast?_live := by simp [hf]
          readPos_le := fun p hp => by
            rcases List.mem_append.mp hp with hp | hp
            · exact h.readPos_le p hp
            · rw [List.mem_singleton.mp hp, hempty.1, hempty.2]
          writePos_le := fun p hp => by
            rcases List.mem_append.mp hp with hp | hp
            · exact h.writePos_le p hp
            · rw [List.mem_singleton.mp hp, hempty.2]
              exact Nat.zero_le _
          full := fun p hp => by
            rw [List.dropLast_concat, hlive] at hp
            rcases List.mem_append.mp hp with hp | hp
            · exact h.full p (by rw [hlive, List.dropLast_concat]; exact hp)
            · rw [List.mem_singleton.mp hp]
              exact hfull
          readPos_tail := fun p hp => by
            obtain ⟨rest, hrest⟩ := h.live_eq_cons
            rw [hrest, List.cons_append, List.tail_cons] at hp
            rcases List.mem_append.mp hp with hp | hp
            · exact h.readPos_tail p (by rw [hrest]; exact hp)
            · rw [List.mem_singleton.mp hp, hempty.1]
          empty := fun p hp => h.empty p (List.mem_cons_of_mem _ hp) }

/-- A write to the write head that keeps its successor and read position and moves its write
position on, up to the end, keeps the shape and a normal read head. -/
lemma Shape.modifyWriteHead (h : Shape rb live free) {g : Buffer → Buffer}
    (hnext : ∀ b, (g b).next = b.next) (hread : ∀ b, (g b).readPos = b.readPos)
    (hle : (rb.buffers rb.writeHead).writePos ≤ (g (rb.buffers rb.writeHead)).writePos)
    (hend : (g (rb.buffers rb.writeHead)).writePos ≤ bufferLength) :
    Shape (rb.modify rb.writeHead g) live free ∧ (Normal rb → Normal (rb.modify rb.writeHead g)) := by
  obtain ⟨init, hlive⟩ := h.live_eq_append
  have hnd := h.nodup
  rw [hlive, List.append_assoc, List.nodup_append] at hnd
  have hinit : ∀ p ∈ init, p ≠ rb.writeHead := fun p hp hpw =>
    hnd.2.2 p hp _ (List.mem_cons_self ..) hpw
  have hfree : ∀ p ∈ free, p ≠ rb.writeHead := fun p hp hpw =>
    (List.nodup_cons.mp hnd.2.1).1 (hpw ▸ hp)
  have hbuf : ∀ p, p ≠ rb.writeHead → (rb.modify rb.writeHead g).buffers p = rb.buffers p :=
    fun p hp => RingBuffer.modify_buffers_of_ne _ _ _ hp
  have hread' : ∀ p, ((rb.modify rb.writeHead g).buffers p).readPos = (rb.buffers p).readPos := by
    intro p
    by_cases hp : p = rb.writeHead
    · subst hp
      simp [hread]
    · rw [hbuf p hp]
  refine ⟨{ nodup := h.nodup
            links := by rw [RingBuffer.nextOf_modify _ _ _ hnext]; exact h.links
            head_mem := h.head_mem
            lt_fresh := h.lt_fresh
            head?_live := h.head?_live
            getLast?_live := h.getLast?_live
            readPos_le := fun p hp => by
              by_cases hpw : p = rb.writeHead
              · subst hpw
                simp only [RingBuffer.modify_buffers_self, hread]
                exact (h.readPos_le _ hp).trans hle
              · rw [hbuf p hpw]
                exact h.readPos_le p hp
            writePos_le := fun p hp => by
              by_cases hpw : p = rb.writeHead
              · subst hpw
                simpa using hend
              · rw [hbuf p hpw]
                exact h.writePos_le p hp
            full := fun p hp => by
              rw [hlive, List.dropLast_concat] at hp
              rw [hbuf p (hinit p hp)]
              exact h.full p (by rw [hlive, List.dropLast_concat]; exact hp)
            readPos_tail := fun p hp => by
              rw [hread']
              exact h.readPos_tail p hp
            empty := fun p hp => by
              rw [hbuf p (hfree p hp)]
              exact h.empty p hp }, fun hnormal heq => ?_⟩
  -- a write head that is also the read head stays normal: its write position only grows
  by_cases hrw : rb.readHead = rb.writeHead
  · rw [RingBuffer.modify_readHead, hread'] at heq ⊢
    apply hnormal
    rw [hrw] at heq ⊢
    simp only [RingBuffer.modify_buffers_self] at heq
    exact le_antisymm (h.readPos_le _ h.writeHead_mem) (heq ▸ hle)
  · rw [RingBuffer.modify_readHead, hbuf _ hrw] at heq ⊢
    exact hnormal heq

/-- The bytes after a write to the write head: those stored from its old write position are
appended. -/
lemma Shape.contents_modifyWriteHead (h : Shape rb live free) {g : Buffer → Buffer}
    (hread : (g (rb.buffers rb.writeHead)).readPos = (rb.buffers rb.writeHead).readPos)
    (hle : (rb.buffers rb.writeHead).writePos ≤ (g (rb.buffers rb.writeHead)).writePos)
    (hdata : ∀ i < (rb.buffers rb.writeHead).writePos,
      (g (rb.buffers rb.writeHead)).data i = (rb.buffers rb.writeHead).data i) :
    (rb.modify rb.writeHead g).contents live = rb.contents live ++
      bytesAt (g (rb.buffers rb.writeHead)).data (rb.buffers rb.writeHead).writePos
        ((g (rb.buffers rb.writeHead)).writePos - (rb.buffers rb.writeHead).writePos) := by
  obtain ⟨init, hlive⟩ := h.live_eq_append
  have hnd := h.nodup
  rw [hlive, List.append_assoc, List.nodup_append] at hnd
  have hinit : ∀ p ∈ init, (rb.modify rb.writeHead g).buffers p = rb.buffers p := fun p hp =>
    RingBuffer.modify_buffers_of_ne _ _ _ fun hpw => hnd.2.2 p hp _ (List.mem_cons_self ..) hpw
  rw [hlive, RingBuffer.contents_append, RingBuffer.contents_append]
  simp only [RingBuffer.contents_cons, RingBuffer.contents_nil, List.append_nil,
    RingBuffer.modify_buffers_self, List.append_assoc]
  have hc : (rb.modify rb.writeHead g).contents init = rb.contents init :=
    RingBuffer.contents_congr fun p hp => by rw [hinit p hp]
  rw [Buffer.bytes_of_writePos_le hread (h.readPos_le _ h.writeHead_mem) hle hdata, hc]

/-- Reading `k` bytes of the read head drops them from the front. -/
lemma Shape.advanceRead (h : Shape rb live free) {k : Nat}
    (hk : k ≤ ((rb.buffers rb.readHead).bytes).length) :
    Shape (rb.modify rb.readHead fun b => { b with readPos := b.readPos + k }) live free ∧
      (rb.modify rb.readHead fun b => { b with readPos := b.readPos + k }).contents live =
        (rb.contents live).drop k := by
  obtain ⟨rest, hlive⟩ := h.live_eq_cons
  have hnd := h.nodup
  rw [hlive, List.cons_append, List.nodup_cons] at hnd
  have hbuf : ∀ p ∈ rest ++ free,
      (rb.modify rb.readHead fun b => { b with readPos := b.readPos + k }).buffers p =
        rb.buffers p := fun p hp =>
    RingBuffer.modify_buffers_of_ne _ _ _ fun hpr => hnd.1 (hpr ▸ hp)
  have hk' : k ≤ (rb.buffers rb.readHead).writePos - (rb.buffers rb.readHead).readPos := by
    simpa [Buffer.bytes] using hk
  have hnotfree : ∀ p ∈ free, p ≠ rb.readHead := fun p hp hpr =>
    hnd.1 (List.mem_append_right _ (hpr ▸ hp))
  refine ⟨{ nodup := h.nodup
            links := by
              rw [RingBuffer.nextOf_modify rb rb.readHead
                (fun b => { b with readPos := b.readPos + k }) fun _ => rfl]
              exact h.links
            head_mem := h.head_mem
            lt_fresh := h.lt_fresh
            head?_live := h.head?_live
            getLast?_live := h.getLast?_live
            readPos_le := fun p hp => by
              rw [hlive] at hp
              rcases List.mem_cons.mp hp with rfl | hp
              · have := h.readPos_le _ h.readHead_mem
                simp only [RingBuffer.modify_buffers_self]
                omega
              · rw [hbuf p (List.mem_append_left _ hp)]
                exact h.readPos_le p (hlive ▸ List.mem_cons_of_mem _ hp)
            writePos_le := fun p hp => by
              rw [hlive] at hp
              rcases List.mem_cons.mp hp with rfl | hp
              · simpa using h.writePos_le _ h.readHead_mem
              · rw [hbuf p (List.mem_append_left _ hp)]
                exact h.writePos_le p (hlive ▸ List.mem_cons_of_mem _ hp)
            full := fun p hp => by
              by_cases hpr : p = rb.readHead
              · subst hpr
                simpa using h.full _ hp
              · rw [RingBuffer.modify_buffers_of_ne _ _ _ hpr]
                exact h.full p hp
            readPos_tail := fun p hp => by
              rw [hlive, List.tail_cons] at hp
              rw [hbuf p (List.mem_append_left _ hp)]
              exact h.readPos_tail p (by rw [hlive]; exact hp)
            empty := fun p hp => by
              rw [hbuf p (List.mem_append_right _ hp)]
              exact h.empty p hp }, ?_⟩
  have hc : (rb.modify rb.readHead fun b => { b with readPos := b.readPos + k }).contents rest =
      rb.contents rest :=
    RingBuffer.contents_congr fun p hp => by rw [hbuf p (List.mem_append_left _ hp)]
  rw [hlive, RingBuffer.contents_cons, RingBuffer.contents_cons, RingBuffer.modify_buffers_self,
    Buffer.bytes_readPos_add, List.drop_append_of_le_length hk, hc]

end Helpers

end CassandraDriver.Rb
