import CassandraDriver.Data.BigEndian
import Mathlib.Data.BitVec

/-!
# Murmur3 tokens

`murmur3.cpp` is the port of `MurmurHash3_x64_128` that Cassandra's `Murmur3Partitioner` uses:
all arithmetic on `int64_t`, logical right shifts through casts to `uint64_t`, tail bytes read as
`int8_t` and so sign-extended, and the 16-byte blocks loaded through an `int64_t*`, in the byte
order of the platform. `Murmur3Partitioner::hash` is its first half with seed `0`.

Cassandra's token of a key is the same `h1`, with blocks read as little-endian words, except
that `Long.MIN_VALUE` is normalised to `Long.MAX_VALUE` (`CassandraMurmur3.token`). On a
little-endian platform the code computes exactly Cassandra's `h1`
(`murmurHash3X64128_little_eq_h1`); the token differs exactly when `h1` is `INT64_MIN`
(`Murmur3Partitioner.hash_eq_token_iff`), which the code does not normalise.

The code's `int64_t` arithmetic is computed here as it wraps; its signed overflows are
undefined in C++, and `BitVec.smulOverflow` says where one occurs.
-/

namespace CassandraDriver

namespace Murmur3

/-- The byte order of the platform: `getblock` loads words in it. -/
inductive Endian
  | little
  | big
  deriving DecidableEq, Repr

/-- `rotl64`: the left shift or-ed with the logical right shift of the value cast to
`uint64_t`. -/
def rotl64 (x : BitVec 64) (r : Nat) : BitVec 64 := (x <<< r) ||| (x >>> (64 - r))

/-- `getblock(blocks, i)`: the `i`-th 64-bit word of the key, loaded in the platform's byte
order. -/
def getblock (endian : Endian) (data : List UInt8) (i : Nat) : BitVec 64 :=
  let bytes := (data.drop (8 * i)).take 8
  BitVec.ofNat 64 (BigEndian.decode (match endian with
    | .little => bytes.reverse
    | .big => bytes))

/-- `BIG_CONSTANT(0x87c37b91114253d5)` -/
def c1 : BitVec 64 := 0x87c37b91114253d5

/-- `BIG_CONSTANT(0x4cf5ad432745937f)` -/
def c2 : BitVec 64 := 0x4cf5ad432745937f

/-- `fmix`, the finalization mix. -/
def fmix (k : BitVec 64) : BitVec 64 :=
  let k := k ^^^ (k >>> 33)
  let k := k * 0xff51afd7ed558ccd
  let k := k ^^^ (k >>> 33)
  let k := k * 0xc4ceb9fe1a85ec53
  k ^^^ (k >>> 33)

/-- `k1 *= c1; k1 = ROTL64(k1,31); k1 *= c2;` -/
def mixK1 (k1 : BitVec 64) : BitVec 64 := rotl64 (k1 * c1) 31 * c2

/-- `k2 *= c2; k2 = ROTL64(k2,33); k2 *= c1;` -/
def mixK2 (k2 : BitVec 64) : BitVec 64 := rotl64 (k2 * c2) 33 * c1

/-- One round of the body's loop, over the two words of a block. -/
def bodyRound (h : BitVec 64 × BitVec 64) (k1 k2 : BitVec 64) : BitVec 64 × BitVec 64 :=
  let h1 := h.1 ^^^ mixK1 k1
  let h1 := (rotl64 h1 27 + h.2) * 5 + 0x52dce729
  let h2 := h.2 ^^^ mixK2 k2
  let h2 := (rotl64 h2 31 + h1) * 5 + 0x38495ab5
  (h1, h2)

/-- `(int64_t) (tail[i])` of an `int8_t`: the byte sign-extended. -/
def tailByte (b : UInt8) : BitVec 64 := b.toBitVec.signExtend 64

/-- The variables the tail's `switch` updates. -/
structure TailState where
  h1 : BitVec 64
  h2 : BitVec 64
  k1 : BitVec 64
  k2 : BitVec 64

/-- Case `c` of the tail's `switch`: cases 15 to 9 or a byte into `k2`, and case 9 mixes `k2`
into `h2`; cases 8 to 1 do so with `k1` and `h1`. -/
def tailCase (tail : List UInt8) (s : TailState) (c : Nat) : TailState :=
  let b := tailByte (tail.getD (c - 1) 0)
  if 9 ≤ c then
    let k2 := s.k2 ^^^ (b <<< (8 * (c - 9)))
    if c = 9 then { s with k2 := mixK2 k2, h2 := s.h2 ^^^ mixK2 k2 } else { s with k2 := k2 }
  else
    let k1 := s.k1 ^^^ (b <<< (8 * (c - 1)))
    if c = 1 then { s with k1 := mixK1 k1, h1 := s.h1 ^^^ mixK1 k1 } else { s with k1 := k1 }

/-- The `switch` entered at case `c`, falling through every case below it. -/
def switchFrom (tail : List UInt8) : Nat → TailState → TailState
  | 0, s => s
  | c + 1, s => switchFrom tail c (tailCase tail s (c + 1))

/-- `MurmurHash3_x64_128(key, len, seed)`, which returns `h1`. The last `h2 += h1` does not
change it and is left out. -/
def murmurHash3X64128 (endian : Endian) (key : List UInt8) (seed : UInt32) : BitVec 64 :=
  let len := key.length
  let nblocks := len / 16
  let h := (List.range nblocks).foldl
    (fun h i => bodyRound h (getblock endian key (i * 2 + 0)) (getblock endian key (i * 2 + 1)))
    (seed.toBitVec.setWidth 64, seed.toBitVec.setWidth 64)
  let s := switchFrom (key.drop (nblocks * 16)) (len % 16) ⟨h.1, h.2, 0, 0⟩
  let h1 := s.h1 ^^^ BitVec.ofNat 64 len
  let h2 := s.h2 ^^^ BitVec.ofNat 64 len
  let h1 := h1 + h2
  let h2 := h2 + h1
  fmix h1 + fmix h2

end Murmur3

/-- `Murmur3Partitioner::hash`: the token of a routing key, an `int64_t`. -/
def Murmur3Partitioner.hash (endian : Murmur3.Endian) (key : List UInt8) : Int :=
  (Murmur3.murmurHash3X64128 endian key 0).toInt

/-! ### Cassandra's token -/

namespace CassandraMurmur3

open Murmur3 (c1 c2 fmix)

/-- A little-endian word of bytes. -/
def word (bytes : List UInt8) : BitVec 64 :=
  BitVec.ofNat 64 (bytes.foldr (fun b acc => b.toNat + 256 * acc) 0)

/-- The tail bytes, each sign-extended and shifted to its place, combined by exclusive or. -/
def tailWord : List UInt8 → BitVec 64
  | [] => 0
  | b :: bs => BitVec.ofInt 64 b.toInt8.toInt ^^^ (tailWord bs <<< 8)

/-- The mix of a first word of a block. -/
def mixK1 (k1 : BitVec 64) : BitVec 64 := (k1 * c1).rotateLeft 31 * c2

/-- The mix of a second word of a block. -/
def mixK2 (k2 : BitVec 64) : BitVec 64 := (k2 * c2).rotateLeft 33 * c1

/-- The hash state after a block. -/
def block (h : BitVec 64 × BitVec 64) (k1 k2 : BitVec 64) : BitVec 64 × BitVec 64 :=
  let h1 := ((h.1 ^^^ mixK1 k1).rotateLeft 27 + h.2) * 5 + 0x52dce729
  (h1, ((h.2 ^^^ mixK2 k2).rotateLeft 31 + h1) * 5 + 0x38495ab5)

/-- `h1` of `MurmurHash3_x64_128` with seed `0`, in wrapping 64-bit arithmetic: the blocks read
as little-endian words, the tail's first eight bytes mixed into `h1` and the others into
`h2`. -/
def h1 (key : List UInt8) : BitVec 64 :=
  let nblocks := key.length / 16
  let h := (List.range nblocks).foldl
    (fun h i => block h (word ((key.drop (16 * i)).take 8)) (word ((key.drop (16 * i + 8)).take 8)))
    (0, 0)
  let tail := key.drop (16 * nblocks)
  let h1 := if tail = [] then h.1 else h.1 ^^^ mixK1 (tailWord (tail.take 8))
  let h2 := if tail.length ≤ 8 then h.2 else h.2 ^^^ mixK2 (tailWord (tail.drop 8))
  let len := BitVec.ofNat 64 key.length
  let h1 := (h1 ^^^ len) + (h2 ^^^ len)
  let h2 := (h2 ^^^ len) + h1
  fmix h1 + fmix h2

/-- Cassandra's `Murmur3Partitioner` token: `h1`, with `Long.MIN_VALUE` normalised to
`Long.MAX_VALUE`. -/
def token (key : List UInt8) : Int :=
  let t := (h1 key).toInt
  if t = -2 ^ 63 then 2 ^ 63 - 1 else t

end CassandraMurmur3

/-! ### The code computes Cassandra's `h1` on a little-endian platform -/

namespace Murmur3

open CassandraMurmur3 (word tailWord)

lemma rotl64_eq_rotateLeft (x : BitVec 64) {r : Nat} (hr : r < 64) :
    rotl64 x r = x.rotateLeft r := by
  rw [rotl64, BitVec.rotateLeft_def, Nat.mod_eq_of_lt hr]

lemma mixK1_eq (k1 : BitVec 64) : mixK1 k1 = CassandraMurmur3.mixK1 k1 := by
  rw [mixK1, CassandraMurmur3.mixK1, rotl64_eq_rotateLeft _ (by decide)]

lemma mixK2_eq (k2 : BitVec 64) : mixK2 k2 = CassandraMurmur3.mixK2 k2 := by
  rw [mixK2, CassandraMurmur3.mixK2, rotl64_eq_rotateLeft _ (by decide)]

lemma bodyRound_eq (h : BitVec 64 × BitVec 64) (k1 k2 : BitVec 64) :
    bodyRound h k1 k2 = CassandraMurmur3.block h k1 k2 := by
  simp only [bodyRound, CassandraMurmur3.block, mixK1_eq, mixK2_eq,
    rotl64_eq_rotateLeft _ (show 27 < 64 by decide), rotl64_eq_rotateLeft _ (show 31 < 64 by decide)]

/-- Bytes read back to front, most significant first, are the little-endian number. -/
lemma decode_reverse (bytes : List UInt8) :
    BigEndian.decode bytes.reverse = bytes.foldr (fun b acc => b.toNat + 256 * acc) 0 := by
  induction bytes with
  | nil => rfl
  | cons b bs ih =>
    rw [List.reverse_cons, BigEndian.decode_append, BigEndian.decode_singleton, ih,
      List.foldr_cons, List.length_singleton, pow_one]
    omega

/-- On a little-endian platform a loaded block is the little-endian word of its bytes. -/
lemma getblock_little (data : List UInt8) (i : Nat) :
    getblock .little data i = word ((data.drop (8 * i)).take 8) := by
  rw [getblock, word, decode_reverse]

lemma tailByte_eq (b : UInt8) : tailByte b = BitVec.ofInt 64 b.toInt8.toInt := by
  rw [tailByte, BitVec.signExtend]
  rfl

/-- The tail word of one more byte has that byte's sign extension at its place; past the end
the byte read is `0` and changes nothing. -/
lemma tailWord_take_succ (l : List UInt8) (c : Nat) :
    tailWord (l.take (c + 1)) = tailWord (l.take c) ^^^ (tailByte (l.getD c 0) <<< (8 * c)) := by
  induction l generalizing c with
  | nil =>
    have hzero : tailByte 0 = 0 := by decide
    simp [hzero]
  | cons b bs ih =>
    cases c with
    | zero => simp [tailWord, tailByte_eq]
    | succ c =>
      rw [List.take_succ_cons, List.take_succ_cons, tailWord, tailWord, ih, List.getD_cons_succ,
        BitVec.shiftLeft_xor_distrib, ← BitVec.shiftLeft_add, show 8 * c + 8 = 8 * (c + 1) by omega,
        BitVec.xor_assoc]

lemma getD_drop (l : List UInt8) (n i : Nat) : (l.drop n).getD i 0 = l.getD (n + i) 0 := by
  rw [List.getD_eq_getElem?_getD, List.getElem?_drop, ← List.getD_eq_getElem?_getD]

/-- Cases 8 to 1 of the `switch`: they build `k1` from the first `c` tail bytes and mix it into
`h1`, leaving `h2` alone. -/
lemma switchFrom_of_le_eight (tail : List UInt8) {c : Nat} (hc : c ≤ 8) (s : TailState) :
    (switchFrom tail c s).h1 =
        (if c = 0 then s.h1 else s.h1 ^^^ mixK1 (s.k1 ^^^ tailWord (tail.take c))) ∧
      (switchFrom tail c s).h2 = s.h2 := by
  induction c generalizing s with
  | zero => simp [switchFrom]
  | succ c ih =>
    have hcase : ¬(9 ≤ c + 1) := by omega
    rw [switchFrom, tailCase, if_neg hcase]
    simp only [Nat.add_sub_cancel]
    by_cases hc0 : c = 0
    · -- case 1 mixes `k1` into `h1`, and the `switch` ends
      subst hc0
      simp [switchFrom, tailWord_take_succ, tailWord]
    · obtain ⟨ih1, ih2⟩ := ih (by omega) { s with k1 := s.k1 ^^^ (tailByte (tail.getD c 0) <<< (8 * c)) }
      rw [if_neg (by omega)]
      refine ⟨?_, ih2⟩
      rw [ih1, if_neg hc0, if_neg (by omega), tailWord_take_succ]
      congr 2
      ac_rfl

/-- Cases 15 to 9 of the `switch`: they build `k2` from the tail bytes after the eighth and mix
it into `h2`, then fall through to case 8 with `h1` and `k1` as they were. -/
lemma switchFrom_of_nine_le (tail : List UInt8) {c : Nat} (hc : 9 ≤ c) (s : TailState) :
    ∃ s' : TailState, s'.h1 = s.h1 ∧ s'.k1 = s.k1 ∧
      s'.h2 = s.h2 ^^^ mixK2 (s.k2 ^^^ tailWord ((tail.drop 8).take (c - 8))) ∧
      switchFrom tail c s = switchFrom tail 8 s' := by
  induction c, hc using Nat.le_induction generalizing s with
  | base =>
    -- case 9 mixes `k2` into `h2`
    let k2 := s.k2 ^^^ (tailByte (tail.getD 8 0) <<< 0)
    refine ⟨⟨s.h1, s.h2 ^^^ mixK2 k2, s.k1, mixK2 k2⟩, rfl, rfl, ?_, rfl⟩
    simp [k2, tailWord_take_succ _ 0, tailWord]
  | succ c hc ih =>
    have hcase : 9 ≤ c + 1 := by omega
    obtain ⟨s', h1', k1', h2', hrun⟩ :=
      ih { s with k2 := s.k2 ^^^ (tailByte (tail.getD c 0) <<< (8 * (c - 8))) }
    refine ⟨s', h1', k1', ?_, ?_⟩
    · rw [h2', show c + 1 - 8 = c - 8 + 1 by omega, tailWord_take_succ, getD_drop,
        show 8 + (c - 8) = c by omega]
      congr 2
      ac_rfl
    · rw [switchFrom, tailCase, if_pos hcase, if_neg (by omega), ← hrun]
      rfl

/-- The `switch` over a whole tail: its first eight bytes go into `h1`, the
others into `h2`. -/
lemma switchFrom_length (tail : List UInt8) (h1 h2 : BitVec 64) :
    (switchFrom tail tail.length ⟨h1, h2, 0, 0⟩).h1 =
        (if tail = [] then h1 else h1 ^^^ mixK1 (tailWord (tail.take 8))) ∧
      (switchFrom tail tail.length ⟨h1, h2, 0, 0⟩).h2 =
        (if tail.length ≤ 8 then h2 else h2 ^^^ mixK2 (tailWord (tail.drop 8))) := by
  by_cases hshort : tail.length ≤ 8
  · obtain ⟨hs1, hs2⟩ := switchFrom_of_le_eight tail hshort ⟨h1, h2, 0, 0⟩
    have htake : tail.take 8 = tail.take tail.length := by
      rw [List.take_of_length_le hshort, List.take_length]
    refine ⟨?_, by rw [if_pos hshort]; exact hs2⟩
    rw [hs1, htake]
    simp [List.length_eq_zero_iff]
  · -- the cases above 8 run first, then cases 8 to 1 from the state they leave
    obtain ⟨s', hs'1, hs'k1, hs'2, hrun⟩ :=
      switchFrom_of_nine_le tail (show 9 ≤ tail.length by omega) ⟨h1, h2, 0, 0⟩
    obtain ⟨hs1, hs2⟩ := switchFrom_of_le_eight tail le_rfl s'
    have hne : tail ≠ [] := by
      rintro rfl
      simp at hshort
    have hdrop : (tail.drop 8).take (tail.length - 8) = tail.drop 8 :=
      List.take_of_length_le (by simp)
    simp only [hrun, hs1, hs2, hs'1, hs'k1, hs'2, hdrop, if_neg hne, if_neg hshort]
    simp

/-- On a little-endian platform `MurmurHash3_x64_128` with seed `0` computes Cassandra's
`h1` of every key. -/
theorem murmurHash3X64128_little_eq_h1 (key : List UInt8) :
    murmurHash3X64128 .little key 0 = CassandraMurmur3.h1 key := by
  -- the body: the same rounds over the same words
  have hbody : ∀ (h : BitVec 64 × BitVec 64) (i : Nat),
      bodyRound h (getblock .little key (i * 2 + 0)) (getblock .little key (i * 2 + 1)) =
        CassandraMurmur3.block h (word ((key.drop (16 * i)).take 8))
          (word ((key.drop (16 * i + 8)).take 8)) := by
    intro h i
    rw [bodyRound_eq, getblock_little, getblock_little, show 8 * (i * 2 + 0) = 16 * i by omega,
      show 8 * (i * 2 + 1) = 16 * i + 8 by omega]
  -- the tail: what is left after the blocks, fewer than 16 bytes
  have htail : (key.drop (key.length / 16 * 16)).length = key.length % 16 := by
    rw [List.length_drop]
    omega
  have hseed : (0 : UInt32).toBitVec.setWidth 64 = 0 := rfl
  unfold murmurHash3X64128 CassandraMurmur3.h1
  simp only [hbody, hseed]
  rw [← htail, (switchFrom_length _ _ _).1, (switchFrom_length _ _ _).2,
    Nat.mul_comm (key.length / 16) 16, mixK1_eq, mixK2_eq]

end Murmur3

/-- On a little-endian platform the driver's token of a key is Cassandra's exactly when `h1` is
not `INT64_MIN`, the value Cassandra normalises and the code does not. -/
theorem Murmur3Partitioner.hash_eq_token_iff (key : List UInt8) :
    Murmur3Partitioner.hash .little key = CassandraMurmur3.token key ↔
      (CassandraMurmur3.h1 key).toInt ≠ -2 ^ 63 := by
  rw [Murmur3Partitioner.hash, Murmur3.murmurHash3X64128_little_eq_h1, CassandraMurmur3.token]
  split_ifs with hmin
  · rw [hmin]
    simp
  · exact ⟨fun _ => hmin, fun _ => rfl⟩

/-- A 16-byte key whose `h1` is `INT64_MIN`: the driver routes it by the token `INT64_MIN`,
Cassandra by `INT64_MAX`; and the first multiplication of its body overflows `int64_t`. -/
theorem Murmur3Partitioner.hash_minToken :
    let endian : Murmur3.Endian := .little
    let key : List UInt8 := [223, 231, 111, 82, 2, 63, 173, 76, 130, 184, 97, 194, 198, 92, 122, 107]
    Murmur3Partitioner.hash endian key = -2 ^ 63 ∧ CassandraMurmur3.token key = 2 ^ 63 - 1 ∧
      BitVec.smulOverflow (Murmur3.getblock endian key 0) Murmur3.c1 = true := by
  intro endian key
  have hmin : (CassandraMurmur3.h1 key).toInt = -2 ^ 63 := by decide
  refine ⟨?_, ?_, by decide⟩
  · rw [Murmur3Partitioner.hash, Murmur3.murmurHash3X64128_little_eq_h1, hmin]
  · rw [CassandraMurmur3.token, hmin, if_pos rfl]

/-! ### Tokens from their text

The ring's tokens come from the `system.local` and `system.peers` tables as the decimal text of
`Long.toString`. `parse_int64` reads it: leading blanks, an optional `-`, then the digits, their
magnitude accumulated as a positive `int64_t` and the sign applied last. The text of every
`int64_t` gives it back (`parseInt64_toString`), but for `INT64_MIN` only as the arithmetic wraps:
its magnitude `2^63` does not fit, and the last sum of the loop overflows
(`parseInt64Overflows_toString`). -/

namespace Murmur3Partitioner

/-- `isspace` in the "C" locale. -/
def isSpace (c : Char) : Bool := c = ' ' || ('\t' ≤ c && c ≤ '\r')

/-- The loop of `parse_int64` over the digits: `value *= 10; value += c - '0'`. -/
def digitLoop (value : BitVec 64) : List Char → BitVec 64
  | [] => value
  | c :: s =>
    if c.isDigit then digitLoop (value * 10 + BitVec.ofNat 64 (c.toNat - '0'.toNat)) s else value

/-- `parse_int64(p, n)` -/
def parseInt64 (s : List Char) : BitVec 64 :=
  match s.dropWhile isSpace with
  | [] => 0
  | c :: rest =>
    let (sign, digits) : BitVec 64 × List Char := if c = '-' then (-1, rest) else (1, c :: rest)
    sign * digitLoop 0 digits

/-- `Murmur3Partitioner::from_string`, the value of the token as `hash` gives it. -/
def fromString (str : List Char) : Int := (parseInt64 str).toInt

/-- Whether a step of the digit loop leaves `int64_t`, in its product by ten or in its sum. -/
def digitLoopOverflows (value : BitVec 64) : List Char → Bool
  | [] => false
  | c :: s =>
    if c.isDigit then
      BitVec.smulOverflow value 10 ||
        BitVec.saddOverflow (value * 10) (BitVec.ofNat 64 (c.toNat - '0'.toNat)) ||
        digitLoopOverflows (value * 10 + BitVec.ofNat 64 (c.toNat - '0'.toNat)) s
    else false

/-- Whether `parse_int64` leaves `int64_t` anywhere, the final `sign * value` included. -/
def parseInt64Overflows (s : List Char) : Bool :=
  match s.dropWhile isSpace with
  | [] => false
  | c :: rest =>
    let (sign, digits) : BitVec 64 × List Char := if c = '-' then (-1, rest) else (1, c :: rest)
    digitLoopOverflows 0 digits || BitVec.smulOverflow sign (digitLoop 0 digits)

section DigitLoop

variable {l : List Char}

lemma digitLoop_append (hl : ∀ c ∈ l, c.isDigit) (value : BitVec 64) (r : List Char) :
    digitLoop value (l ++ r) = digitLoop (digitLoop value l) r := by
  induction l generalizing value with
  | nil => rfl
  | cons c l ih =>
    have hc : c.isDigit := hl c List.mem_cons_self
    simp only [List.cons_append, digitLoop, hc, if_true]
    exact ih (fun c' hc' => hl c' (List.mem_cons_of_mem c hc')) _

lemma digitLoopOverflows_append (hl : ∀ c ∈ l, c.isDigit) (value : BitVec 64) (r : List Char) :
    digitLoopOverflows value (l ++ r) =
      (digitLoopOverflows value l || digitLoopOverflows (digitLoop value l) r) := by
  induction l generalizing value with
  | nil => rfl
  | cons c l ih =>
    have hc : c.isDigit := hl c List.mem_cons_self
    simp only [List.cons_append, digitLoopOverflows, digitLoop, hc, if_true, Bool.or_assoc]
    rw [ih (fun c' hc' => hl c' (List.mem_cons_of_mem c hc'))]

/-- The digit characters and their values. -/
lemma digitChar_spec : ∀ d < 10, (Nat.digitChar d).isDigit ∧ (Nat.digitChar d).toNat - '0'.toNat = d
    ∧ Nat.digitChar d ≠ '-' ∧ isSpace (Nat.digitChar d) = false := by
  decide

lemma isDigit_of_mem_toDigits {m : Nat} : ∀ c ∈ Nat.toDigits 10 m, c.isDigit := fun _ hc =>
  Nat.isDigit_of_mem_toDigits (by decide) (by decide) hc

/-- `BitVec.ofNat` of a number that fits in `int64_t`, read as `int64_t`. -/
lemma toInt_ofNat_of_lt {m : Nat} (h : m < 2 ^ 63) : (BitVec.ofNat 64 m).toInt = m := by
  rw [BitVec.toInt_eq_toNat_cond, BitVec.toNat_ofNat]
  split <;> omega

lemma digitLoop_digitChar {d : Nat} (hd : d < 10) (value : BitVec 64) :
    digitLoop value [Nat.digitChar d] = value * 10 + BitVec.ofNat 64 d := by
  obtain ⟨hdigit, hval, -⟩ := digitChar_spec d hd
  simp only [digitLoop, hdigit, if_true, hval]

lemma digitLoopOverflows_digitChar {d : Nat} (hd : d < 10) (value : BitVec 64) :
    digitLoopOverflows value [Nat.digitChar d] =
      (BitVec.smulOverflow value 10 || BitVec.saddOverflow (value * 10) (BitVec.ofNat 64 d)) := by
  obtain ⟨hdigit, hval, -⟩ := digitChar_spec d hd
  simp only [digitLoopOverflows, hdigit, if_true, hval, Bool.or_false]

/-- A step of the loop from the value `a` with the digit `d` overflows exactly when `10 * a + d`
does not fit in `int64_t`. -/
lemma step_overflows_iff {value : BitVec 64} {a : Int} (hv : value.toInt = a) (ha : 0 ≤ a)
    {d : Nat} (hd : d < 10) :
    (BitVec.smulOverflow value 10 || BitVec.saddOverflow (value * 10) (BitVec.ofNat 64 d)) =
      decide (2 ^ 63 ≤ 10 * a + d) := by
  have h10 : (10 : BitVec 64).toInt = 10 := rfl
  have hdInt := toInt_ofNat_of_lt (m := d) (by omega)
  rw [Bool.eq_iff_iff]
  simp only [BitVec.smulOverflow, BitVec.saddOverflow, Bool.or_eq_true, decide_eq_true_eq, hv, h10,
    hdInt]
  by_cases hbig : 2 ^ 63 ≤ 10 * a
  · omega
  · -- below `2^63` the product is exact
    have hmul : (value * 10).toInt = a * 10 := by
      rw [BitVec.toInt_mul, hv, h10]
      exact Int.bmod_eq_of_le (by omega) (by omega)
    rw [hmul]
    omega

/-- The loop reads the text of `m` as `m`, wrapped to 64 bits. -/
theorem digitLoop_toDigits (m : Nat) : digitLoop 0 (Nat.toDigits 10 m) = BitVec.ofNat 64 m := by
  induction m using Nat.strong_induction_on with
  | _ m ih =>
    by_cases hm : m < 10
    · rw [Nat.toDigits_of_lt_base hm, digitLoop_digitChar hm]
      simp
    · -- the loop reads the last digit last
      rw [Nat.toDigits_of_base_le (by decide) (by omega), digitLoop_append isDigit_of_mem_toDigits,
        ih (m / 10) (by omega), digitLoop_digitChar (Nat.mod_lt _ (by decide))]
      apply BitVec.eq_of_toNat_eq
      have h10 : (10 : BitVec 64).toNat = 10 := rfl
      simp only [BitVec.toNat_add, BitVec.toNat_mul, BitVec.toNat_ofNat, h10]
      omega

/-- The loop over the text of `m` leaves `int64_t` exactly when `m` does not fit in it. -/
theorem digitLoopOverflows_toDigits (m : Nat) :
    digitLoopOverflows 0 (Nat.toDigits 10 m) = decide (2 ^ 63 ≤ m) := by
  induction m using Nat.strong_induction_on with
  | _ m ih =>
    by_cases hm : m < 10
    · rw [Nat.toDigits_of_lt_base hm, digitLoopOverflows_digitChar hm,
        step_overflows_iff (a := 0) rfl le_rfl hm]
      simp
    · rw [Nat.toDigits_of_base_le (by decide) (by omega),
        digitLoopOverflows_append isDigit_of_mem_toDigits, ih (m / 10) (by omega),
        digitLoop_toDigits, digitLoopOverflows_digitChar (Nat.mod_lt _ (by decide))]
      by_cases hq : 2 ^ 63 ≤ m / 10
      · rw [decide_eq_true hq, decide_eq_true (by omega : 2 ^ 63 ≤ m), Bool.true_or]
      · -- the prefix fits, so the loop holds it exactly
        rw [step_overflows_iff (toInt_ofNat_of_lt (by omega)) (by omega) (Nat.mod_lt _ (by decide))]
        simp only [hq, decide_false, Bool.false_or, decide_eq_decide]
        omega

end DigitLoop

/-- The text `Long.toString` gives, as `toString` of the value. -/
lemma toList_toString (n : Int) :
    (toString n).toList =
      if n < 0 then '-' :: Nat.toDigits 10 n.natAbs else Nat.toDigits 10 n.natAbs := by
  change n.repr.toList = _
  cases n with
  | ofNat m => simp [Int.repr, Nat.toList_repr]
  | negSucc m =>
    simp [Int.repr, String.toList_append, Nat.toList_repr, Int.negSucc_lt_zero]

/-- A digit is neither a blank nor a minus sign. -/
lemma isSpace_eq_false_of_isDigit {c : Char} (h : c.isDigit) : isSpace c = false ∧ c ≠ '-' := by
  simp only [Char.isDigit, Bool.and_eq_true, decide_eq_true_eq] at h
  obtain ⟨h0, h9⟩ := h
  refine ⟨?_, by rintro rfl; exact absurd h0 (by decide)⟩
  simp only [isSpace, Bool.or_eq_false_iff, decide_eq_false_iff_not, Bool.and_eq_false_iff]
  refine ⟨by rintro rfl; exact absurd h0 (by decide), .inr fun h13 => ?_⟩
  exact absurd (Char.le_trans h0 h13) (by decide)

/-- `parse_int64` of a text of digits, with or without a minus sign: the blank loop stops at
once, and the sign is `-1` or `1`. -/
lemma parseInt64_toDigits (negative : Bool) (m : Nat) :
    parseInt64 ((if negative then ['-'] else []) ++ Nat.toDigits 10 m) =
        (if negative then -1 else 1) * BitVec.ofNat 64 m ∧
      parseInt64Overflows ((if negative then ['-'] else []) ++ Nat.toDigits 10 m) =
        (decide (2 ^ 63 ≤ m) ||
          BitVec.smulOverflow (if negative then -1 else 1) (BitVec.ofNat 64 m)) := by
  obtain ⟨c, rest, hcons⟩ := List.exists_cons_of_ne_nil (Nat.toDigits_ne_nil (n := m) (b := 10))
  have hc := isSpace_eq_false_of_isDigit
    (isDigit_of_mem_toDigits c (hcons ▸ List.mem_cons_self))
  cases negative with
  | true =>
    simp only [if_true, List.singleton_append, parseInt64, parseInt64Overflows,
      List.dropWhile_cons_of_neg (p := isSpace) (by decide : ¬ isSpace '-' = true),
      digitLoop_toDigits, digitLoopOverflows_toDigits, and_self]
  | false =>
    simp only [Bool.false_eq_true, if_false, List.nil_append, parseInt64, parseInt64Overflows]
    rw [hcons, List.dropWhile_cons_of_neg (by simp [hc.1])]
    simp only [hc.2, if_false, ← hcons, digitLoop_toDigits, digitLoopOverflows_toDigits, and_self]

/-- The text of an `int64_t` is read back as it, `INT64_MIN` included. -/
theorem parseInt64_toString (n : BitVec 64) : parseInt64 (toString n.toInt).toList = n := by
  have hlt := BitVec.toInt_lt (x := n)
  have hle := BitVec.le_toInt (x := n)
  rw [toList_toString]
  by_cases hneg : n.toInt < 0
  · have h := (parseInt64_toDigits true n.toInt.natAbs).1
    simp only [if_true, List.singleton_append] at h
    rw [if_pos hneg, h, neg_one_mul]
    apply BitVec.eq_of_toNat_eq
    rw [BitVec.toNat_neg, BitVec.toNat_ofNat]
    have hnat := n.isLt
    rw [BitVec.toInt_eq_toNat_cond] at hneg ⊢
    split at hneg <;> omega
  · have h := (parseInt64_toDigits false n.toInt.natAbs).1
    simp only [Bool.false_eq_true, if_false, List.nil_append] at h
    rw [if_neg hneg, h, one_mul]
    apply BitVec.eq_of_toNat_eq
    rw [BitVec.toNat_ofNat]
    have hnat := n.isLt
    rw [BitVec.toInt_eq_toNat_cond] at hneg ⊢
    split at hneg <;> omega

/-- Reading the text of an `int64_t` leaves `int64_t` exactly for `INT64_MIN`. -/
theorem parseInt64Overflows_toString (n : BitVec 64) :
    parseInt64Overflows (toString n.toInt).toList = true ↔ n.toInt = -2 ^ 63 := by
  have hlt := BitVec.toInt_lt (x := n)
  have hle := BitVec.le_toInt (x := n)
  have hmOne : (-1 : BitVec 64).toInt = -1 := rfl
  have hOne : (1 : BitVec 64).toInt = 1 := rfl
  rw [toList_toString]
  by_cases hneg : n.toInt < 0
  · have h := (parseInt64_toDigits true n.toInt.natAbs).2
    simp only [if_true, List.singleton_append] at h
    rw [if_pos hneg, h]
    by_cases hmin : n.toInt = -2 ^ 63
    · simp only [hmin, iff_true, Bool.or_eq_true, decide_eq_true_eq]
      left; omega
    · -- the magnitude fits, and so does its negation
      simp only [hmin, iff_false, Bool.or_eq_true, decide_eq_true_eq, BitVec.smulOverflow, hmOne,
        toInt_ofNat_of_lt (m := n.toInt.natAbs) (by omega)]
      omega
  · have h := (parseInt64_toDigits false n.toInt.natAbs).2
    simp only [Bool.false_eq_true, if_false, List.nil_append] at h
    rw [if_neg hneg, h]
    simp only [show n.toInt ≠ -2 ^ 63 by omega, iff_false, Bool.or_eq_true, decide_eq_true_eq,
      BitVec.smulOverflow, hOne,
      toInt_ofNat_of_lt (m := n.toInt.natAbs) (by omega)]
    omega

/-- The text of `INT64_MIN`, `-9223372036854775808`, gives the token `INT64_MIN` back only as
the arithmetic wraps: its magnitude overflows the loop's `int64_t`. -/
theorem fromString_minToken :
    fromString (toString (-2 ^ 63 : Int)).toList = -2 ^ 63 ∧
      parseInt64Overflows (toString (-2 ^ 63 : Int)).toList = true := by
  have hmin : (BitVec.intMin 64).toInt = -2 ^ 63 := by decide
  rw [← hmin, fromString, parseInt64_toString]
  exact ⟨rfl, (parseInt64Overflows_toString _).2 rfl⟩

end Murmur3Partitioner

end CassandraDriver
