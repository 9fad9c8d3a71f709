import Mathlib

/-!
# Big-endian byte codecs

Fixed-width big-endian encodings of natural numbers and of two's complement integers as lists
of bytes, with their round-trip laws. `encode w v` keeps the `w` low bytes of `v`; `decode`
reads a byte list of any length back. A signed `w`-byte word is the residue of the integer
modulo `2 ^ (8 * w)`, read back with the top half of the range negative. `slice` reads a
block of bytes at an integer offset of a buffer, and fails when the block does not lie inside.
-/

namespace BigEndian

/-- The `w` low bytes of `v`, most significant first. -/
def encode : Nat → Nat → List UInt8
  | 0, _ => []
  | w + 1, v => encode w (v / 256) ++ [UInt8.ofNat (v % 256)]

/-- The number a list of bytes spells, most significant first. -/
def decode (bs : List UInt8) : Nat := bs.foldl (fun acc b => acc * 256 + b.toNat) 0

@[simp] lemma length_encode (w v : Nat) : (encode w v).length = w := by
  induction w generalizing v with
  | zero => rfl
  | succ w ih => simp [encode, ih]

/-- The `a + b` low bytes are the `a` bytes above the `b` low ones, then those. -/
lemma encode_add (a b v : Nat) : encode (a + b) v = encode a (v / 256 ^ b) ++ encode b v := by
  induction b generalizing v with
  | zero => simp [encode]
  | succ b ih =>
    rw [← Nat.add_assoc, encode, ih, encode, List.append_assoc, Nat.div_div_eq_div_mul, ← pow_succ']

@[simp] lemma encode_one (v : Nat) : encode 1 v = [UInt8.ofNat (v % 256)] := rfl

@[simp] lemma decode_nil : decode [] = 0 := rfl

private lemma foldl_decode (a : Nat) (bs : List UInt8) :
    bs.foldl (fun acc b => acc * 256 + b.toNat) a = a * 256 ^ bs.length + decode bs := by
  induction bs generalizing a with
  | nil => simp
  | cons b bs ih =>
    simp only [List.foldl_cons, decode, List.length_cons]
    rw [ih, ih (0 * 256 + b.toNat), pow_succ]
    ring

lemma decode_append (xs ys : List UInt8) :
    decode (xs ++ ys) = decode xs * 256 ^ ys.length + decode ys := by
  rw [decode, List.foldl_append, foldl_decode]
  rfl

@[simp] lemma decode_singleton (b : UInt8) : decode [b] = b.toNat := by
  simp [decode]

lemma decode_lt (bs : List UInt8) : decode bs < 256 ^ bs.length := by
  induction bs using List.reverseRecOn with
  | nil => simp
  | append_singleton bs b ih =>
    rw [decode_append, decode_singleton, List.length_singleton, pow_one, List.length_append,
      List.length_singleton, pow_succ]
    have hb : b.toNat < 256 := b.toNat_lt
    have hmul := Nat.mul_le_mul_right 256 ih
    omega

/-- Decoding an encoding gives back the value modulo the width. -/
@[simp] lemma decode_encode (w v : Nat) : decode (encode w v) = v % 256 ^ w := by
  induction w generalizing v with
  | zero => simp [encode, Nat.mod_one]
  | succ w ih =>
    have hbyte : (UInt8.ofNat (v % 256)).toNat = v % 256 := by simp
    rw [encode, decode_append, ih, decode_singleton, List.length_singleton, pow_one, hbyte,
      pow_succ', Nat.mod_mul]
    ring

lemma decode_encode_of_lt {w v : Nat} (h : v < 256 ^ w) : decode (encode w v) = v := by
  rw [decode_encode, Nat.mod_eq_of_lt h]

/-- An encoding is determined by the bytes it decodes to. -/
lemma encode_decode (bs : List UInt8) : encode bs.length (decode bs) = bs := by
  induction bs using List.reverseRecOn with
  | nil => rfl
  | append_singleton bs b ih =>
    rw [List.length_append, List.length_singleton, encode, decode_append, List.length_singleton,
      pow_one, decode_singleton]
    have hb : b.toNat < 256 := b.toNat_lt
    have hdiv : (decode bs * 256 + b.toNat) / 256 = decode bs := by omega
    have hmod : (decode bs * 256 + b.toNat) % 256 = b.toNat := by omega
    rw [hdiv, hmod, ih, UInt8.ofNat_toNat]

/-! ### Two's complement words -/

/-- Read a `w`-byte unsigned word as a two's complement integer. -/
def toInt (w n : Nat) : Int := if n < 2 ^ (8 * w - 1) then n else (n : Int) - 2 ^ (8 * w)

/-- The two's complement encoding of an integer in `w` bytes. -/
def encodeInt (w : Nat) (v : Int) : List UInt8 := encode w (v % 2 ^ (8 * w)).toNat

/-- Decode a two's complement integer. -/
def decodeInt (bs : List UInt8) : Int := toInt bs.length (decode bs)

@[simp] lemma length_encodeInt (w : Nat) (v : Int) : (encodeInt w v).length = w := by
  simp [encodeInt]

private lemma pow_256 (w : Nat) : (256 : Nat) ^ w = 2 ^ (8 * w) := by
  rw [pow_mul]
  norm_num

/-- A two's complement encoding reads back as the integer it encodes, for every integer the
width can hold. -/
lemma decodeInt_encodeInt {w : Nat} (hw : 0 < w) {v : Int} (hlo : -2 ^ (8 * w - 1) ≤ v)
    (hhi : v < 2 ^ (8 * w - 1)) : decodeInt (encodeInt w v) = v := by
  have hsplit : (2 : Int) ^ (8 * w) = 2 * 2 ^ (8 * w - 1) := by
    rw [← pow_succ']
    congr 1
    omega
  have hpos : (0 : Int) < 2 ^ (8 * w - 1) := by positivity
  have hmod_nonneg : 0 ≤ v % 2 ^ (8 * w) := Int.emod_nonneg _ (by positivity)
  have hmod_lt : v % 2 ^ (8 * w) < 2 ^ (8 * w) := Int.emod_lt_of_pos _ (by positivity)
  have hlt : (v % 2 ^ (8 * w)).toNat < 256 ^ w := by
    rw [pow_256]
    zify [hmod_nonneg]
    simpa using hmod_lt
  unfold decodeInt encodeInt toInt
  rw [length_encode, decode_encode_of_lt hlt]
  rcases Int.lt_or_le v 0 with hneg | hnn
  · -- a negative value sits in the upper half of the unsigned range
    have hm : v % 2 ^ (8 * w) = v + 2 ^ (8 * w) := by
      rw [← Int.add_mul_emod_self_left v (2 ^ (8 * w)) 1, mul_one, Int.emod_eq_of_lt] <;> omega
    have hnot : ¬ (v % 2 ^ (8 * w)).toNat < 2 ^ (8 * w - 1) := by
      zify [hmod_nonneg]
      omega
    rw [if_neg hnot, Int.toNat_of_nonneg hmod_nonneg, hm]
    ring
  · have hm : v % 2 ^ (8 * w) = v := Int.emod_eq_of_lt hnn (by omega)
    have hyes : (v % 2 ^ (8 * w)).toNat < 2 ^ (8 * w - 1) := by
      zify [hmod_nonneg]
      omega
    rw [if_pos hyes, Int.toNat_of_nonneg hmod_nonneg, hm]

/-- A natural number below the signed range reads back as itself. -/
lemma decodeInt_encode_of_lt {w v : Nat} (hv : v < 2 ^ (8 * w - 1)) :
    decodeInt (encode w v) = v := by
  have hlt : v < 256 ^ w := by
    rw [pow_256]
    calc v < 2 ^ (8 * w - 1) := hv
      _ ≤ 2 ^ (8 * w) := Nat.pow_le_pow_right (by norm_num) (Nat.sub_le _ _)
  rw [decodeInt, length_encode, decode_encode_of_lt hlt, toInt, if_pos hv]

/-! ### Reading at an offset -/

/-- The `n` bytes of `mem` from offset `pos` on, when they lie inside it. -/
def slice (mem : List UInt8) (pos : Int) (n : Nat) : Option (List UInt8) :=
  if 0 ≤ pos ∧ pos + n ≤ mem.length then some ((mem.drop pos.toNat).take n) else none

/-- A block of bytes reads back at the offset where it was laid out. -/
lemma slice_append (pre x post : List UInt8) :
    slice (pre ++ x ++ post) pre.length x.length = some x := by
  have hin : (0 : Int) ≤ pre.length ∧ (pre.length : Int) + x.length ≤ (pre ++ x ++ post).length := by
    simp only [List.length_append]
    omega
  rw [slice, if_pos hin, Int.toNat_natCast, List.append_assoc, List.drop_left, List.take_left]

lemma slice_eq_none {mem : List UInt8} {pos : Int} {n : Nat} (h : mem.length < pos + n) :
    slice mem pos n = none := by
  rw [slice, if_neg]
  omega

/-- A block read has the length asked for. -/
lemma length_of_slice {mem bs : List UInt8} {pos : Int} {n : Nat} (h : slice mem pos n = some bs) :
    bs.length = n := by
  unfold slice at h
  split_ifs at h with hin
  cases h
  rw [List.length_take, List.length_drop]
  omega

/-- `bytes` lie in `mem` from offset `pos` on. -/
def BytesAt (mem : List UInt8) (pos : Int) (bytes : List UInt8) : Prop :=
  ∃ pre rest, mem = pre ++ bytes ++ rest ∧ (pre.length : Int) = pos

/-- Bytes laid out one block after another: the first at the offset, the rest after it. -/
lemma BytesAt.split {mem xs ys : List UInt8} {pos : Int} (h : BytesAt mem pos (xs ++ ys)) :
    BytesAt mem pos xs ∧ BytesAt mem (pos + xs.length) ys := by
  obtain ⟨pre, rest, hmem, hpos⟩ := h
  refine ⟨⟨pre, ys ++ rest, by simp [hmem], hpos⟩, ⟨pre ++ xs, rest, by simp [hmem], ?_⟩⟩
  rw [List.length_append, Nat.cast_add, hpos]

lemma BytesAt.take {mem bytes : List UInt8} {pos : Int} (h : BytesAt mem pos bytes) (n : Nat) :
    BytesAt mem pos (bytes.take n) := by
  have hsplit : BytesAt mem pos (bytes.take n ++ bytes.drop n) := by
    rwa [List.take_append_drop]
  exact hsplit.split.1

lemma BytesAt.length_le {mem bytes : List UInt8} {pos : Int} (h : BytesAt mem pos bytes) :
    bytes.length ≤ mem.length := by
  obtain ⟨pre, rest, rfl, -⟩ := h
  simp only [List.length_append]
  omega

lemma BytesAt.slice_eq {mem bytes : List UInt8} {pos : Int} (h : BytesAt mem pos bytes) :
    slice mem pos bytes.length = some bytes := by
  obtain ⟨pre, rest, rfl, rfl⟩ := h
  exact slice_append pre bytes rest

/-! ### Reading from the front

A reader takes what it needs from the front of a byte list and hands back the rest, or fails
when the bytes run out. -/

/-- Split off the first `n` bytes. -/
def readBytes (n : Nat) (bs : List UInt8) : Option (List UInt8 × List UInt8) :=
  if n ≤ bs.length then some (bs.take n, bs.drop n) else none

/-- Read a `w`-byte unsigned word. -/
def readNat (w : Nat) (bs : List UInt8) : Option (Nat × List UInt8) :=
  (readBytes w bs).map fun r => (decode r.1, r.2)

/-- Read a `w`-byte two's complement integer. -/
def readInt (w : Nat) (bs : List UInt8) : Option (Int × List UInt8) :=
  (readBytes w bs).map fun r => (decodeInt r.1, r.2)

/-- Read a field that is there only when `present` says so. -/
def readOptional {α : Type} (present : Bool) (read : List UInt8 → Option (α × List UInt8))
    (bs : List UInt8) : Option (Option α × List UInt8) :=
  if present then (read bs).map fun r => (some r.1, r.2) else some (none, bs)

/-- The bytes of a field that may be absent. -/
def encodeOptional {α : Type} (enc : α → List UInt8) (a : Option α) : List UInt8 :=
  (a.map enc).getD []

@[simp] lemma encodeOptional_none {α : Type} (enc : α → List UInt8) :
    encodeOptional enc none = [] := rfl

@[simp] lemma encodeOptional_some {α : Type} (enc : α → List UInt8) (a : α) :
    encodeOptional enc (some a) = enc a := rfl

@[simp] lemma encodeOptional_ite {α : Type} (c : Prop) [Decidable c] (enc : α → List UInt8)
    (a : α) : encodeOptional enc (if c then some a else none) = if c then enc a else [] := by
  by_cases hc : c <;> simp [hc, encodeOptional]

lemma readBytes_append (x rest : List UInt8) : readBytes x.length (x ++ rest) = some (x, rest) := by
  rw [readBytes, if_pos (by simp), List.take_left, List.drop_left]

lemma readNat_encode_append {w v : Nat} (hv : v < 256 ^ w) (rest : List UInt8) :
    readNat w (encode w v ++ rest) = some (v, rest) := by
  have h := readBytes_append (encode w v) rest
  rw [length_encode] at h
  rw [readNat, h, Option.map_some, decode_encode_of_lt hv]

lemma readInt_encodeInt_append {w : Nat} (hw : 0 < w) {v : Int} (hlo : -2 ^ (8 * w - 1) ≤ v)
    (hhi : v < 2 ^ (8 * w - 1)) (rest : List UInt8) :
    readInt w (encodeInt w v ++ rest) = some (v, rest) := by
  have h := readBytes_append (encodeInt w v) rest
  rw [length_encodeInt] at h
  rw [readInt, h, Option.map_some, decodeInt_encodeInt hw hlo hhi]

@[simp] lemma readOptional_false {α : Type} (read : List UInt8 → Option (α × List UInt8))
    (bs : List UInt8) : readOptional false read bs = some (none, bs) := rfl

/-- An optional field reads back when its reader reads back the value it holds. -/
lemma readOptional_encodeOptional {α : Type} {read : List UInt8 → Option (α × List UInt8)}
    {enc : α → List UInt8} {a : Option α}
    (hread : ∀ x ∈ a, ∀ rest, read (enc x ++ rest) = some (x, rest)) (rest : List UInt8) :
    readOptional a.isSome read (encodeOptional enc a ++ rest) = some (a, rest) := by
  cases a with
  | none => rfl
  | some x =>
    simp only [readOptional, Option.isSome_some, if_true, encodeOptional, Option.map_some,
      Option.getD_some]
    rw [hread x rfl rest, Option.map_some]

end BigEndian
