import Mathlib

/-!
# Fixed-size buffers written at offsets

A buffer allocated with a size and then written piece by piece at offsets: a byte not yet
written is `none`, and a write that does not fit is refused with `none`, where a C-style
buffer asserts or writes past its end. Written front to back, a buffer is a written prefix
followed by an unwritten rest (`filledTo`); it is filled when the rest is empty.
-/

/-- The bytes of a fixed-size buffer, `none` where nothing was written. -/
structure FixedBuffer where
  cells : List (Option UInt8)

namespace FixedBuffer

/-- A buffer of `n` bytes, none of them written. -/
def alloc (n : Nat) : FixedBuffer := ⟨List.replicate n none⟩

/-- A buffer holding exactly `bytes`. -/
def ofBytes (bytes : List UInt8) : FixedBuffer := ⟨bytes.map some⟩

/-- The size the buffer was allocated with. -/
def size (b : FixedBuffer) : Nat := b.cells.length

/-- Write `bytes` at `offset`: the buffer after the write and the offset after the bytes, or
`none` when they do not fit. -/
def write (b : FixedBuffer) (offset : Nat) (bytes : List UInt8) : Option (FixedBuffer × Nat) :=
  if offset + bytes.length ≤ b.size then
    some (⟨b.cells.take offset ++ bytes.map some ++ b.cells.drop (offset + bytes.length)⟩,
      offset + bytes.length)
  else none

/-- A buffer written up to `written`, with `rest` bytes still unwritten. -/
def filledTo (written : List UInt8) (rest : Nat) : FixedBuffer :=
  ⟨written.map some ++ List.replicate rest none⟩

@[simp] lemma size_filledTo (written : List UInt8) (rest : Nat) :
    (filledTo written rest).size = written.length + rest := by
  simp [filledTo, size]

@[simp] lemma size_ofBytes (bytes : List UInt8) : (ofBytes bytes).size = bytes.length := by
  simp [ofBytes, size]

lemma alloc_eq_filledTo (n : Nat) : alloc n = filledTo [] n := by
  simp [alloc, filledTo]

lemma filledTo_zero (written : List UInt8) : filledTo written 0 = ofBytes written := by
  simp [filledTo, ofBytes]

/-- Writing on at the end of what is written, within the size. -/
lemma write_filledTo {written bytes : List UInt8} {rest : Nat} (h : bytes.length ≤ rest) :
    (filledTo written rest).write written.length bytes =
      some (filledTo (written ++ bytes) (rest - bytes.length), written.length + bytes.length) := by
  have hfit : written.length + bytes.length ≤ (filledTo written rest).size := by
    rw [size_filledTo]
    omega
  have htake : (written.map some ++ List.replicate rest none).take written.length =
      written.map some := List.take_left' (List.length_map _)
  have hdrop : (written.map some ++ List.replicate rest none).drop
      (written.length + bytes.length) = List.replicate (rest - bytes.length) none := by
    have hlen : (written.map some).length = written.length := List.length_map _
    rw [← hlen, List.drop_append, List.drop_replicate]
    simp
  rw [write, if_pos hfit]
  simp only [filledTo, htake, hdrop, List.map_append, List.append_assoc]

/-- A write past the size is refused. -/
lemma write_filledTo_eq_none {written bytes : List UInt8} {rest : Nat}
    (h : rest < bytes.length) : (filledTo written rest).write written.length bytes = none := by
  rw [write, if_neg]
  rw [size_filledTo]
  omega

/-! ### Writers that append

A writer takes a buffer and the offset it writes at, and returns the buffer and the offset after
what it wrote, or an error. `Appends e step bytes` says that, on a buffer filled up to the offset,
`step` appends `bytes` there when they fit and fails with `e` when they do not: a chain of such
writers appends the concatenation of their bytes, and fails exactly when that overflows. -/

section Appends

variable {ε : Type}

/-- Write `bytes` at the offset, failing with `e` when they do not fit. -/
def writeOr (e : ε) (bytes : List UInt8) (p : FixedBuffer × Nat) : Except ε (FixedBuffer × Nat) :=
  match p.1.write p.2 bytes with
  | some r => .ok r
  | none => .error e

/-- `step` appends `bytes` at the end of what is written, or fails with `e` when they do not
fit in the rest. -/
def Appends (e : ε) (step : FixedBuffer × Nat → Except ε (FixedBuffer × Nat))
    (bytes : List UInt8) : Prop :=
  ∀ written rest, step (filledTo written rest, written.length) =
    if bytes.length ≤ rest then
      .ok (filledTo (written ++ bytes) (rest - bytes.length), written.length + bytes.length)
    else .error e

lemma appends_writeOr (e : ε) (bytes : List UInt8) : Appends e (writeOr e bytes) bytes := by
  intro written rest
  by_cases h : bytes.length ≤ rest
  · rw [if_pos h, writeOr, write_filledTo h]
  · rw [if_neg h, writeOr, write_filledTo_eq_none (by omega)]

lemma appends_pure (e : ε) : Appends e pure [] := by
  intro written rest
  simp only [List.length_nil, Nat.zero_le, if_true, List.append_nil, Nat.sub_zero, Nat.add_zero]
  rfl

/-- Two writers in a row append both their bytes. -/
lemma Appends.bind {e : ε} {s₁ s₂ : FixedBuffer × Nat → Except ε (FixedBuffer × Nat)}
    {b₁ b₂ : List UInt8} (h₁ : Appends e s₁ b₁) (h₂ : Appends e s₂ b₂) :
    Appends e (fun p => s₁ p >>= s₂) (b₁ ++ b₂) := by
  intro written rest
  show s₁ (filledTo written rest, written.length) >>= s₂ = _
  rw [h₁]
  by_cases hb₁ : b₁.length ≤ rest
  · -- the second writer starts where the first stopped
    have hpos : written.length + b₁.length = (written ++ b₁).length := (List.length_append ..).symm
    rw [if_pos hb₁, hpos]
    change s₂ (filledTo (written ++ b₁) (rest - b₁.length), (written ++ b₁).length) = _
    rw [h₂, List.append_assoc, List.length_append, List.length_append, Nat.sub_sub,
      Nat.add_assoc]
    by_cases hb₂ : b₂.length ≤ rest - b₁.length
    · rw [if_pos hb₂, if_pos (by omega)]
    · rw [if_neg hb₂, if_neg (by omega)]
  · rw [if_neg hb₁, if_neg (by rw [List.length_append]; omega)]
    rfl

/-- A writer chosen by a condition. -/
lemma appends_ite {e : ε} {s₁ s₂ : FixedBuffer × Nat → Except ε (FixedBuffer × Nat)}
    {b₁ b₂ : List UInt8} (c : Prop) [Decidable c] (h₁ : Appends e s₁ b₁) (h₂ : Appends e s₂ b₂) :
    Appends e (fun p => if c then s₁ p else s₂ p) (if c then b₁ else b₂) := by
  by_cases hc : c
  · simpa only [if_pos hc] using h₁
  · simpa only [if_neg hc] using h₂

/-- A writer that runs only under a condition. -/
lemma Appends.ite {e : ε} {step : FixedBuffer × Nat → Except ε (FixedBuffer × Nat)}
    {bytes : List UInt8} (h : Appends e step bytes) (c : Prop) [Decidable c] :
    Appends e (fun p => if c then step p else pure p) (if c then bytes else []) :=
  appends_ite c h (appends_pure e)

/-- From an empty buffer of `n` bytes, an appending writer fills `bytes` when they fit. -/
lemma Appends.run_alloc {e : ε} {step : FixedBuffer × Nat → Except ε (FixedBuffer × Nat)}
    {bytes : List UInt8} (h : Appends e step bytes) (n : Nat) :
    step (alloc n, 0) =
      if bytes.length ≤ n then .ok (filledTo bytes (n - bytes.length), bytes.length)
      else .error e := by
  have := h [] n
  simpa [← alloc_eq_filledTo] using this

end Appends

end FixedBuffer
