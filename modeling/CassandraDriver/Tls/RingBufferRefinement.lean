import CassandraDriver.Tls.RingBufferOps
import CassandraDriver.Data.Simulation

/-!
# The ring buffer is a byte queue

What a TLS session does with its `RingBuffer` is what it would do with a queue of bytes: `write`
and `commit` append, `read` takes from the front, `index_of` looks for a byte among the first
ones, and `reset` empties it (`ByteQueue.step`). A session may only commit what it stored
through the pointer `peek_writable` returned, no more than the size it offered
(`RingBuffer.Allowed`).

`Refines rb q` says that the ring buffer keeps its invariant and holds the bytes `q`. It is a
simulation of the queue by the ring buffer under the session's contract
(`refines_isSimulation`), and it holds of a new ring buffer and the empty queue; so every run of
a session gives the answers of the queue, with `length_` the size of the queue and the ring a
cycle of the buffers reachable from `head_` (`run_refines`).
-/

namespace CassandraDriver.Rb

open Simulation

/-- An operation of a TLS session on its ring buffer. `commit size bytes` is
`peek_writable(&size)`, the session's store of `bytes` through the pointer it returns, and
`commit(bytes.length)`; `read false size` is `read(NULL, size)`. -/
inductive Op
  | write (data : List UInt8)
  | commit (size : Nat) (bytes : List UInt8)
  | read (out : Bool) (size : Nat)
  | indexOf (delim : UInt8) (limit : Nat)
  | reset

/-- What an operation answers: `read` the count of bytes it read and those it copied out,
`index_of` a position. -/
inductive Answer
  | done
  | read (count : Nat) (bytes : List UInt8)
  | index (pos : Nat)
  deriving DecidableEq

/-! ### The byte queue -/

/-- The queue of bytes a ring buffer stands for. -/
def ByteQueue.step (q : List UInt8) : Op → Answer × List UInt8
  | .write data => (.done, q ++ data)
  | .commit _ bytes => (.done, q ++ bytes)
  | .read out size => (.read (min size q.length) (if out then q.take size else []), q.drop size)
  | .indexOf delim limit => (.index ((q.take limit).findIdx (· == delim)), q)
  | .reset => (.done, [])

/-! ### The ring buffer as a machine -/

namespace RingBuffer

/-- An operation on the ring buffer, and its answer. -/
def step (rb : RingBuffer) : Op → Answer × RingBuffer
  | .write data => (.done, rb.write data)
  | .commit _ bytes => (.done, (rb.storeWritable bytes).commit bytes.length)
  | .read out size =>
    let r := rb.read out size
    (.read r.1 r.2.1, r.2.2)
  | .indexOf delim limit => (.index (rb.indexOf delim limit), rb)
  | .reset => (.done, rb.reset)

/-- The session's part of the contract: it commits no more than `peek_writable` offered. -/
def Allowed (rb : RingBuffer) : Op → Prop
  | .commit size bytes => bytes.length ≤ rb.peekWritable size
  | _ => True

instance (rb : RingBuffer) : (op : Op) → Decidable (rb.Allowed op)
  | .commit size bytes => inferInstanceAs (Decidable (bytes.length ≤ rb.peekWritable size))
  | .write _ | .read _ _ | .indexOf _ _ | .reset => isTrue trivial

end RingBuffer

/-! ### The refinement -/

/-- The ring buffer keeps its invariant and holds the bytes `q`. -/
def Refines (rb : RingBuffer) (q : List UInt8) : Prop :=
  ∃ live free, Inv rb live free ∧ rb.contents live = q

/-- A new ring buffer is `head_` alone, linked to itself, and holds nothing. -/
lemma refines_new : Refines RingBuffer.new [] := by
  have hinv : Inv RingBuffer.new [head] [] :=
    Inv.of_empty (List.nodup_singleton _) ⟨rfl, trivial⟩ (List.mem_singleton_self _)
      (fun p hp => by rw [List.mem_singleton.mp hp]; exact Nat.lt_succ_self _) rfl rfl
      (fun _ _ => ⟨rfl, rfl⟩) rfl
  exact ⟨[head], [], hinv, rfl⟩

/-- Each operation the contract allows keeps the refinement and answers as the queue. -/
theorem refines_isSimulation :
    IsSimulation RingBuffer.step ByteQueue.step RingBuffer.Allowed Refines := by
  rintro rb q op ⟨live, free, h, rfl⟩ hallowed
  cases op with
  | write data =>
    obtain ⟨live', free', h', hc⟩ := h.write data
    exact ⟨rfl, live', free', h', hc⟩
  | commit size bytes =>
    obtain ⟨live', free', h', hc⟩ := h.commit hallowed
    exact ⟨rfl, live', free', h', hc⟩
  | read out size =>
    obtain ⟨hcount, hcopied, live', free', h', hc⟩ := h.read out size
    refine ⟨?_, live', free', h', ?_⟩
    · -- reading past the end reads to the end
      simp only [RingBuffer.step, ByteQueue.step, hcount, hcopied, Answer.read.injEq, true_and]
      rw [← List.take_eq_take_min]
    · rw [RingBuffer.step, hc, ← List.drop_eq_drop_min]
      rfl
  | indexOf delim limit =>
    exact ⟨by rw [RingBuffer.step, ByteQueue.step, h.indexOf], live, free, h, rfl⟩
  | reset =>
    obtain ⟨live', free', h', hc⟩ := h.reset
    exact ⟨rfl, live', free', h', hc⟩

/-- Every run of a session that keeps to the contract, from a new ring buffer, answers as the
byte queue; and after it `length_` is the size of the queue, the ring keeps its invariant, its
live buffers hold the bytes of the queue, and the buffers reachable from `head_` are those of
the ring. -/
theorem run_refines (ops : List Op)
    (hadm : Admissible RingBuffer.step RingBuffer.Allowed RingBuffer.new ops) :
    (run RingBuffer.step RingBuffer.new ops).1 = (run ByteQueue.step [] ops).1 ∧
      (run RingBuffer.step RingBuffer.new ops).2.length = (run ByteQueue.step [] ops).2.length ∧
      ∃ live free, Inv (run RingBuffer.step RingBuffer.new ops).2 live free ∧
        (run RingBuffer.step RingBuffer.new ops).2.contents live =
          (run ByteQueue.step [] ops).2 ∧
        ∀ p, (∃ k, (run RingBuffer.step RingBuffer.new ops).2.nextOf^[k] head = p) ↔
          p ∈ live ++ free := by
  obtain ⟨hanswers, live, free, h, hc⟩ := refines_isSimulation.run refines_new hadm
  refine ⟨hanswers, ?_, live, free, h, hc, h.reachable_iff⟩
  rw [h.length_eq, hc]

/-- A session that writes three bytes, commits one more, reads two, looks for the byte it
committed and resets. -/
theorem run_refines_session :
    (run RingBuffer.step RingBuffer.new
        [.write [1, 2, 3], .commit 4 [9], .read true 2, .indexOf 9 8, .reset]).1 =
      [.done, .done, .read 2 [1, 2], .index 1, .done] := by
  rw [(run_refines _ (by decide)).1]
  rfl

end CassandraDriver.Rb
