import Mathlib.Logic.Function.Basic

/-!
# The ring buffer of the TLS sessions

`rb::RingBuffer` keeps the bytes of a TLS stream in a chain of `Buffer`s of `BUFFER_LENGTH`
bytes each, linked into a ring by their `next_` pointers. The ring starts as the embedded
`head_` linked to itself. Bytes are written at `write_pos_` of the write head and read at
`read_pos_` of the read head; a full write head moves on to its successor, and a new buffer is
linked in after it when that successor is the read head. A buffer read to its write position
is reset, and the read head moves on. After a read, `free_empty` unlinks and deletes the
buffers after the write head's successor up to the read head, except `head_`.

The buffers are a heap indexed by address: `head` is the address of `head_`, and
`new Buffer()` takes `fresh`, an address no buffer has had. `delete` is not modelled; the
refinement shows that no deleted buffer stays linked. Each `while` loop takes a fuel argument,
and the operation passes fuel enough for every run the invariant of
`CassandraDriver.Tls.RingBufferRefinement` allows.
-/

namespace CassandraDriver.Rb

/-- `BUFFER_LENGTH`, the largest TLS frame, so that a whole `ClientHello` fits one buffer. -/
def bufferLength : Nat := 16 * 1024 + 5

lemma bufferLength_pos : 0 < bufferLength := by decide

/-- A `Buffer` of the ring: its read and write positions, the address of its successor, and
its bytes. -/
structure Buffer where
  readPos : Nat
  writePos : Nat
  next : Nat
  data : Nat → UInt8

/-- `new Buffer()`, with the successor the code links it to at once; its bytes are not yet
written. -/
def Buffer.new (next : Nat) : Buffer := ⟨0, 0, next, fun _ => 0⟩

/-- The `n` bytes of `data` from `pos`. -/
def bytesAt (data : Nat → UInt8) (pos : Nat) : Nat → List UInt8
  | 0 => []
  | n + 1 => data pos :: bytesAt data (pos + 1) n

/-- The bytes of a buffer still to read, from its read position to its write position. -/
def Buffer.bytes (b : Buffer) : List UInt8 := bytesAt b.data b.readPos (b.writePos - b.readPos)

/-- `memcpy(dst + pos, src + offset, n)`. -/
def copyInto (dst : Nat → UInt8) (pos : Nat) (src : List UInt8) (offset n : Nat) :
    Nat → UInt8 :=
  fun i => if pos ≤ i ∧ i < pos + n then src.getD (offset + (i - pos)) 0 else dst i

/-- The address of the embedded `head_`. -/
def head : Nat := 0

/-- A `RingBuffer`: `length_`, the heap of buffers, `read_head_`, `write_head_`, and the
address the next `new Buffer()` takes. -/
structure RingBuffer where
  length : Nat
  buffers : Nat → Buffer
  readHead : Nat
  writeHead : Nat
  fresh : Nat

namespace RingBuffer

/-- `RingBuffer()`: `head_` linked to itself, both heads on it. -/
def new : RingBuffer := ⟨0, fun _ => Buffer.new head, head, head, head + 1⟩

/-- A write to the buffer at `p`. -/
def modify (rb : RingBuffer) (p : Nat) (f : Buffer → Buffer) : RingBuffer :=
  { rb with buffers := Function.update rb.buffers p (f (rb.buffers p)) }

/-- `p->next_ = q`. -/
def setNext (rb : RingBuffer) (p q : Nat) : RingBuffer :=
  rb.modify p fun b => { b with next := q }

/-- The successor of every address. -/
def nextOf (rb : RingBuffer) (p : Nat) : Nat := (rb.buffers p).next

section Modify

variable (rb : RingBuffer) (p : Nat) (f : Buffer → Buffer)

@[simp] lemma modify_buffers_self : (rb.modify p f).buffers p = f (rb.buffers p) :=
  Function.update_self ..

@[simp] lemma modify_buffers_of_ne {q : Nat} (h : q ≠ p) :
    (rb.modify p f).buffers q = rb.buffers q :=
  Function.update_of_ne h ..

@[simp] lemma modify_length : (rb.modify p f).length = rb.length := rfl
@[simp] lemma modify_readHead : (rb.modify p f).readHead = rb.readHead := rfl
@[simp] lemma modify_writeHead : (rb.modify p f).writeHead = rb.writeHead := rfl
@[simp] lemma modify_fresh : (rb.modify p f).fresh = rb.fresh := rfl

/-- A write that keeps `next_` keeps every successor. -/
lemma nextOf_modify (h : ∀ b, (f b).next = b.next) : (rb.modify p f).nextOf = rb.nextOf := by
  funext q
  by_cases hq : q = p
  · subst hq
    simp [nextOf, h]
  · simp [nextOf, hq]

lemma nextOf_setNext (q : Nat) : (rb.setNext p q).nextOf = Function.update rb.nextOf p q := by
  funext r
  by_cases hr : r = p
  · subst hr
    simp [nextOf, setNext]
  · simp [nextOf, setNext, hr]

end Modify

/-! ### `try_move_read_head` and `try_allocate_for_write` -/

/-- The loop of `try_move_read_head`: while the read head is read to its write position, and
not at zero, both positions are reset, and the read head moves on unless it is the write
head. -/
def tryMoveReadHeadLoop : Nat → RingBuffer → RingBuffer
  | 0, rb => rb
  | fuel + 1, rb =>
    let b := rb.buffers rb.readHead
    if b.readPos ≠ 0 ∧ b.readPos = b.writePos then
      let rb := rb.modify rb.readHead fun b => { b with readPos := 0, writePos := 0 }
      let rb := if rb.readHead ≠ rb.writeHead then { rb with readHead := rb.nextOf rb.readHead }
        else rb
      tryMoveReadHeadLoop fuel rb
    else rb

/-- `try_move_read_head`; a round of its loop either ends it or passes a buffer, and there are
fewer than `fresh` buffers. -/
def tryMoveReadHead (rb : RingBuffer) : RingBuffer := tryMoveReadHeadLoop rb.fresh rb

/-- `try_allocate_for_write`: a full write head whose successor is the read head, or holds
bytes, gets a new empty buffer after it. -/
def tryAllocateForWrite (rb : RingBuffer) : RingBuffer :=
  let w := rb.buffers rb.writeHead
  if w.writePos = bufferLength ∧ (w.next = rb.readHead ∨ (rb.buffers w.next).writePos ≠ 0) then
    let next := rb.fresh
    let rb := { rb with buffers := Function.update rb.buffers next (Buffer.new w.next),
                        fresh := rb.fresh + 1 }
    rb.setNext rb.writeHead next
  else rb

/-- `write_head_ = write_head_->next_`. -/
def advanceWriteHead (rb : RingBuffer) : RingBuffer :=
  { rb with writeHead := rb.nextOf rb.writeHead }

/-! ### `read` and `free_empty` -/

/-- The loop of `read`, with `bytes_read`, `left` and the bytes copied to `out` so far; `out`
says whether `out` is not null. Each round copies what the read head holds, at most `left`
bytes, and moves the read head on. -/
def readLoop (out : Bool) (expected : Nat) :
    Nat → Nat → Nat → List UInt8 → RingBuffer → Nat × List UInt8 × RingBuffer
  | 0, bytesRead, _, copied, rb => (bytesRead, copied, rb)
  | fuel + 1, bytesRead, left, copied, rb =>
    if bytesRead < expected then
      let b := rb.buffers rb.readHead
      let avail := min (b.writePos - b.readPos) left
      let copied := if out then copied ++ bytesAt b.data b.readPos avail else copied
      let rb := rb.modify rb.readHead fun b => { b with readPos := b.readPos + avail }
      readLoop out expected fuel (bytesRead + avail) (left - avail) copied rb.tryMoveReadHead
    else (bytesRead, copied, rb)

/-- The loop of `free_empty` from `cur` to the read head: `head_` is linked after `prev` and
kept, every other buffer is passed over (deleted). -/
def freeEmptyLoop : Nat → RingBuffer → Nat → Nat → RingBuffer
  | 0, rb, prev, cur => rb.setNext prev cur
  | fuel + 1, rb, prev, cur =>
    if cur = rb.readHead then rb.setNext prev cur
    else if cur = head then
      let rb := rb.setNext prev cur
      freeEmptyLoop fuel rb cur (rb.nextOf head)
    else freeEmptyLoop fuel rb prev (rb.nextOf cur)

/-- `free_empty`: the buffers after the write head's successor up to the read head are
unlinked, except `head_`. -/
def freeEmpty (rb : RingBuffer) : RingBuffer :=
  let child := rb.nextOf rb.writeHead
  if child = rb.writeHead ∨ child = rb.readHead then rb
  else
    let cur := rb.nextOf child
    if cur = rb.writeHead ∨ cur = rb.readHead then rb
    else freeEmptyLoop rb.fresh rb child cur

/-- `read(out, size)`: the number of bytes read, the bytes copied to `out`, and the buffer.
Each round of its loop reads a byte at least, so `expected + 1` rounds are enough. -/
def read (rb : RingBuffer) (out : Bool) (size : Nat) : Nat × List UInt8 × RingBuffer :=
  let expected := if rb.length > size then size else rb.length
  let (bytesRead, copied, rb) := readLoop out expected (expected + 1) 0 size [] rb
  (bytesRead, copied, freeEmpty { rb with length := rb.length - bytesRead })

/-! ### `index_of` -/

/-- The inner loop of `index_of`: the offset of the first `delim` among the `n` bytes of `data`
from `pos`, or `n`. -/
def scan (data : Nat → UInt8) (delim : UInt8) (pos : Nat) : Nat → Nat
  | 0 => 0
  | n + 1 => if data pos = delim then 0 else scan data delim (pos + 1) n + 1

/-- The outer loop of `index_of`, with `bytes_read`, `left` and `current`. -/
def indexOfLoop (rb : RingBuffer) (delim : UInt8) (max : Nat) : Nat → Nat → Nat → Nat → Nat
  | 0, _, _, _ => max
  | fuel + 1, bytesRead, left, current =>
    if bytesRead < max then
      let b := rb.buffers current
      let avail := min (b.writePos - b.readPos) left
      let off := scan b.data delim b.readPos avail
      if off ≠ avail then bytesRead + off
      else
        indexOfLoop rb delim max fuel (bytesRead + off) (left - off)
          (if b.readPos + avail = bufferLength then b.next else current)
    else max

/-- `index_of(delim, limit)`. Each round of its loop but the last passes a byte at least. -/
def indexOf (rb : RingBuffer) (delim : UInt8) (limit : Nat) : Nat :=
  let max := if rb.length > limit then limit else rb.length
  indexOfLoop rb delim max (max + 1) 0 limit rb.readHead

/-! ### `write`, `peek_writable`, `commit` and `reset` -/

/-- The copy of a round of `write`: `toWrite` bytes of `data` from `offset` stored at the write
position, which moves on, and `length_` grown by them. -/
def writeChunk (rb : RingBuffer) (data : List UInt8) (offset toWrite : Nat) : RingBuffer :=
  let rb := rb.modify rb.writeHead fun b =>
    { b with data := copyInto b.data b.writePos data offset toWrite,
             writePos := b.writePos + toWrite }
  { rb with length := rb.length + toWrite }

/-- The loop of `write`, with `offset` and `left`: each round fills the write head as far as it
can, and moves to the next buffer while bytes are left. -/
def writeLoop (data : List UInt8) : Nat → Nat → Nat → RingBuffer → RingBuffer
  | 0, _, _, rb => rb
  | fuel + 1, offset, left, rb =>
    if left > 0 then
      let toWrite := min left (bufferLength - (rb.buffers rb.writeHead).writePos)
      let rb := rb.writeChunk data offset toWrite
      if left - toWrite ≠ 0 then
        writeLoop data fuel (offset + toWrite) (left - toWrite)
          rb.tryAllocateForWrite.advanceWriteHead.tryMoveReadHead
      else writeLoop data fuel (offset + toWrite) (left - toWrite) rb
    else rb

/-- `write(data, size)`; only its first round can write nothing, so `size + 1` rounds are
enough. -/
def write (rb : RingBuffer) (data : List UInt8) : RingBuffer :=
  writeLoop data (data.length + 1) 0 data.length rb

/-- `peek_writable(&size)`: what it leaves in `*size`, the room after the write position,
at most `size` when `size` is not zero. -/
def peekWritable (rb : RingBuffer) (size : Nat) : Nat :=
  let available := bufferLength - (rb.buffers rb.writeHead).writePos
  if size ≠ 0 ∧ available > size then size else available

/-- What the caller of `peek_writable` does with the pointer it returns: it stores `bytes` at
the write position. -/
def storeWritable (rb : RingBuffer) (bytes : List UInt8) : RingBuffer :=
  rb.modify rb.writeHead fun b => { b with data := copyInto b.data b.writePos bytes 0 bytes.length }

/-- `commit(size)`: the write position moves by `size`, and a full write head moves on. -/
def commit (rb : RingBuffer) (size : Nat) : RingBuffer :=
  let rb := rb.modify rb.writeHead fun b => { b with writePos := b.writePos + size }
  let rb := { rb with length := rb.length + size }.tryAllocateForWrite
  if (rb.buffers rb.writeHead).writePos = bufferLength then rb.advanceWriteHead.tryMoveReadHead
  else rb

/-- The loop of `reset`: the buffers from the read head on that hold bytes are emptied, and the
read head moves past them. -/
def resetLoop : Nat → RingBuffer → RingBuffer
  | 0, rb => rb
  | fuel + 1, rb =>
    let b := rb.buffers rb.readHead
    if b.readPos ≠ b.writePos then
      let rb := { rb with length := rb.length - (b.writePos - b.readPos) }
      let rb := rb.modify rb.readHead fun b => { b with writePos := 0, readPos := 0 }
      resetLoop fuel { rb with readHead := rb.nextOf rb.readHead }
    else rb

/-- `reset()`: each round of its loop empties a buffer that holds a byte at least, so `length`
rounds are enough. -/
def reset (rb : RingBuffer) : RingBuffer :=
  let rb := resetLoop rb.length rb
  { rb with writeHead := rb.readHead }

end RingBuffer

end CassandraDriver.Rb
