import CassandraDriver.Data.UpperBound
import CassandraDriver.Request.Statement
import CassandraDriver.Policy.ChainedPlans

/-!
# Partition-aware routing

`PartitionAwarePolicy` sends a statement to the replicas of the YugabyteDB tablet that owns its
key. The key of a bound statement is `bytes_to_key` of its key values: the 64-bit Jenkins hash
`Hash64StringWithSeed` of their bytes, folded to 16 bits (`toNat_bytesToKey_lt`). The rows of
`system.partitions` give each tablet a start key, read big-endian from a blob, and its replica
addresses, the leader pushed to the front. Sorted by start key, a table's partitions are searched
with `upper_bound` minus one, which finds the partition with the greatest start key at most the
key (`TableSplitMetadata.getPartitionMetadata_spec`). `new_query_plan` then matches the
addresses against its hosts and builds a partition-aware plan over them
(`PartitionAwarePolicy.newQueryPlan_spec`).

`get_yb_hash_code` turns the 16-bit key `h` into a token of the signed 64-bit YugabyteDB space,
`(h ^ 0x8000) << 48`. The shift is made on `int64_t`, and for every key below 32768 its exact
value passes `INT64_MAX` (`cqlToYbHashCodeFits_iff`). The rule of C++14 for a signed left shift,
which GCC and Clang apply to C++11 as well (DR1457), defines such a shift as long as the exact
value fits the unsigned type, and it does for every key (`cqlToYbHashCodeDefined`): the result is
that value converted to `int64_t`, `(h - 32768) * 2^48` (`toInt_cqlToYbHashCode`).

Machine integers are bit vectors of their width. The preprocessor gives `Word64At` two bodies:
the unaligned little-endian load of x86-64, and one that casts each `char` to `uint64_t`. The
hash takes the build's `Word64At` as a parameter; `bytesToKey` is that of x86-64. With an
unsigned `char` the two loads agree (`word64AtPortable_false`), and so do the hashes of every
key (`hash64StringWithSeedWith_portable_unsigned`); with a signed `char` they agree on keys of
bytes below `0x80` only (`hash64StringWithSeedWith_portable_of_lt`), for a byte above is
sign-extended.
-/

namespace CassandraDriver

/-! ### `Hash64StringWithSeed` -/

namespace JenkinsHash

/-- `mix`, the 64-bit version. -/
def mix (a b c : UInt64) : UInt64 × UInt64 × UInt64 :=
  let a := (a - b - c) ^^^ (c >>> 43)
  let b := (b - c - a) ^^^ (a <<< 9)
  let c := (c - a - b) ^^^ (b >>> 8)
  let a := (a - b - c) ^^^ (c >>> 38)
  let b := (b - c - a) ^^^ (a <<< 23)
  let c := (c - a - b) ^^^ (b >>> 5)
  let a := (a - b - c) ^^^ (c >>> 35)
  let b := (b - c - a) ^^^ (a <<< 49)
  let c := (c - a - b) ^^^ (b >>> 11)
  let a := (a - b - c) ^^^ (c >>> 12)
  let b := (b - c - a) ^^^ (a <<< 18)
  let c := (c - a - b) ^^^ (b >>> 22)
  (a, b, c)

/-- `Word64At` of a little-endian build with unaligned loads, `UNALIGNED_LOAD64`: the first
eight bytes, the first at the low end. -/
def word64At (s : List UInt8) : UInt64 :=
  (s.take 8).foldr (fun byte w => (w <<< 8) ||| byte.toUInt64) 0

/-- `static_cast<uint64_t>` of a `char`: sign-extended where `char` is signed. -/
def castCharToUInt64 (charIsSigned : Bool) (byte : UInt8) : UInt64 :=
  if charIsSigned then UInt64.ofBitVec (byte.toBitVec.signExtend 64) else byte.toUInt64

/-- `Word64At` of the other builds, big-endian or with aligned loads: each of the eight `char`s
cast to `uint64_t` and shifted to its place, the shifted words added. -/
def word64AtPortable (charIsSigned : Bool) (s : List UInt8) : UInt64 :=
  let cast (i : Nat) : UInt64 := castCharToUInt64 charIsSigned (s.getD i 0)
  cast 0 + (cast 1 <<< 8) + (cast 2 <<< 16) + (cast 3 <<< 24) + (cast 4 <<< 32) +
    (cast 5 <<< 40) + (cast 6 <<< 48) + (cast 7 <<< 56)

/-- The loop over the blocks of 24 bytes, with the build's `Word64At` as `load`; `n` bounds its
rounds, and the length of the input is enough. It returns the state and the bytes left. -/
def blocks (load : List UInt8 → UInt64) : Nat → UInt64 × UInt64 × UInt64 → List UInt8 →
    (UInt64 × UInt64 × UInt64) × List UInt8
  | 0, abc, s => (abc, s)
  | n + 1, (a, b, c), s =>
    if 24 ≤ s.length then
      blocks load n (mix (a + load s) (b + load (s.drop 8)) (c + load (s.drop 16))) (s.drop 24)
    else ((a, b, c), s)

/-- The `switch (keylen)` over the fewer than 24 bytes left: case `k + 1` adds byte `k` and falls
through to case `k`; cases 16 and 8 add whole words and break. -/
def tail (load : List UInt8 → UInt64) (s : List UInt8) :
    Nat → UInt64 × UInt64 × UInt64 → UInt64 × UInt64 × UInt64
  | 0, abc => abc
  | k + 1, (a, b, c) =>
    let byte := (s.getD k 0).toUInt64
    if k + 1 = 16 then (a + load s, b + load (s.drop 8), c)
    else if k + 1 = 8 then (a + load s, b, c)
    -- the first byte of `c` is kept for the length
    else if 16 < k + 1 then tail load s k (a, b, c + (byte <<< (8 * (k - 15)).toUInt64))
    else if 8 < k + 1 then tail load s k (a, b + (byte <<< (8 * (k - 8)).toUInt64), c)
    else tail load s k (a + (byte <<< (8 * k).toUInt64), b, c)

/-- `Hash64StringWithSeed(s, len, c)`, for the `len` bytes of `s`, in a build whose `Word64At`
is `load`. -/
def hash64StringWithSeedWith (load : List UInt8 → UInt64) (s : List UInt8) (c : UInt64) :
    UInt64 :=
  let golden : UInt64 := 0xe08c1d668b756f82
  let ((a, b, c), rest) := blocks load s.length (golden, golden, c) s
  let (a, b, c) := tail load rest rest.length (a, b, c + s.length.toUInt64)
  (mix a b c).2.2

/-- `Hash64StringWithSeed` as x86-64 builds it, with the unaligned little-endian load. -/
def hash64StringWithSeed (s : List UInt8) (c : UInt64) : UInt64 :=
  hash64StringWithSeedWith word64At s c

/-! #### The two builds of `Word64At` -/

/-- Below `0x80` a `char` is cast alike whatever its signedness. -/
lemma castCharToUInt64_of_lt {byte : UInt8} (h : byte.toNat < 128) (charIsSigned : Bool) :
    castCharToUInt64 charIsSigned byte = byte.toUInt64 := by
  cases charIsSigned with
  | false => rfl
  | true =>
    have hmsb : byte.toBitVec.msb = false :=
      BitVec.msb_eq_false_iff_two_mul_lt.mpr (by rw [UInt8.toNat_toBitVec]; omega)
    apply UInt64.toBitVec_inj.1
    rw [castCharToUInt64, if_pos rfl, UInt64.toBitVec_ofBitVec,
      BitVec.signExtend_eq_setWidth_of_msb_false hmsb, UInt8.toBitVec_toUInt64]

/-- One step of the little-endian load: the word so far shifted up a byte, the byte below it. -/
lemma toNat_shiftLeft_or (x : UInt64) (byte : UInt8) :
    ((x <<< 8) ||| byte.toUInt64).toNat = x.toNat * 256 % 2 ^ 64 + byte.toNat := by
  have hbyte : byte.toNat < 2 ^ 8 := byte.toNat_lt
  rw [UInt64.toNat_or, UInt64.toNat_shiftLeft, UInt8.toNat_toUInt64,
    show (8 : UInt64).toNat % 64 = 8 from rfl, Nat.shiftLeft_eq,
    show x.toNat * 2 ^ 8 % 2 ^ 64 = (x.toNat % 2 ^ 56) <<< 8 by rw [Nat.shiftLeft_eq]; omega,
    ← Nat.shiftLeft_add_eq_or_of_lt hbyte, Nat.shiftLeft_eq]
  omega

/-- With an unsigned `char` the portable `Word64At` is the little-endian load. -/
theorem word64AtPortable_false (s : List UInt8) : word64AtPortable false s = word64At s := by
  apply UInt64.toNat_inj.1
  have hbyte : ∀ i, (s.getD i 0).toNat < 2 ^ 8 := fun i => (s.getD i 0).toNat_lt
  have h0 := hbyte 0
  have h1 := hbyte 1
  have h2 := hbyte 2
  have h3 := hbyte 3
  have h4 := hbyte 4
  have h5 := hbyte 5
  have h6 := hbyte 6
  have h7 := hbyte 7
  -- both sides read the first eight bytes; past the end of the key they read zero
  rcases s with _ | ⟨b0, _ | ⟨b1, _ | ⟨b2, _ | ⟨b3, _ | ⟨b4, _ | ⟨b5, _ | ⟨b6, _ | ⟨b7, rest⟩⟩⟩⟩⟩⟩⟩⟩ <;>
    simp only [word64AtPortable, castCharToUInt64, word64At, List.take, List.foldr,
      List.getD_cons_zero, List.getD_cons_succ, List.getD_nil, toNat_shiftLeft_or,
      UInt64.toNat_add, UInt64.toNat_shiftLeft, UInt8.toNat_toUInt64, Bool.false_eq_true,
      if_false, Nat.shiftLeft_eq, UInt64.reduceToNat, UInt8.reduceToNat, Nat.reduceMod] at * <;>
    omega

lemma getD_lt_of_forall_lt {s : List UInt8} (h : ∀ byte ∈ s, byte.toNat < 128) (i : Nat) :
    (s.getD i 0).toNat < 128 := by
  rcases Nat.lt_or_ge i s.length with hi | hi
  · rw [List.getD_eq_getElem _ _ hi]
    exact h _ (List.getElem_mem hi)
  · rw [List.getD_eq_default _ _ hi]
    decide

/-- On bytes below `0x80` the portable `Word64At` is the little-endian load, whatever the
signedness of `char`. -/
theorem word64AtPortable_of_lt {s : List UInt8} (h : ∀ byte ∈ s, byte.toNat < 128)
    (charIsSigned : Bool) : word64AtPortable charIsSigned s = word64At s := by
  have hcast : ∀ i, castCharToUInt64 charIsSigned (s.getD i 0) =
      castCharToUInt64 false (s.getD i 0) := fun i =>
    (castCharToUInt64_of_lt (getD_lt_of_forall_lt h i) _).trans
      (castCharToUInt64_of_lt (getD_lt_of_forall_lt h i) _).symm
  rw [← word64AtPortable_false]
  simp only [word64AtPortable, hcast]

section Congr

variable {load₁ load₂ : List UInt8 → UInt64}

/-- The loop over the blocks loads the key and its suffixes only. -/
lemma blocks_congr {s : List UInt8} (h : ∀ t, t <:+ s → load₁ t = load₂ t) (n : Nat)
    (abc : UInt64 × UInt64 × UInt64) : blocks load₁ n abc s = blocks load₂ n abc s := by
  induction n generalizing abc s with
  | zero => rfl
  | succ n ih =>
    obtain ⟨a, b, c⟩ := abc
    rw [blocks, blocks, h s (List.suffix_refl s), h _ (List.drop_suffix 8 s),
      h _ (List.drop_suffix 16 s),
      ih (s := s.drop 24) (fun t ht => h t (ht.trans (List.drop_suffix 24 s)))]

/-- The bytes the loop leaves are a suffix of the key. -/
lemma suffix_blocks_snd (load : List UInt8 → UInt64) (n : Nat) (abc : UInt64 × UInt64 × UInt64)
    (s : List UInt8) : (blocks load n abc s).2 <:+ s := by
  induction n generalizing abc s with
  | zero => exact List.suffix_refl s
  | succ n ih =>
    obtain ⟨a, b, c⟩ := abc
    rw [blocks]
    split
    · exact (ih _ _).trans (List.drop_suffix 24 s)
    · exact List.suffix_refl s

lemma tail_congr {s : List UInt8} (h : ∀ t, t <:+ s → load₁ t = load₂ t) (k : Nat)
    (abc : UInt64 × UInt64 × UInt64) : tail load₁ s k abc = tail load₂ s k abc := by
  induction k generalizing abc with
  | zero => rfl
  | succ k ih =>
    obtain ⟨a, b, c⟩ := abc
    simp only [tail, h s (List.suffix_refl s), h _ (List.drop_suffix 8 s), ih]

/-- Two builds hash a key alike when their `Word64At`s agree on its suffixes. -/
theorem hash64StringWithSeedWith_congr {s : List UInt8} (h : ∀ t, t <:+ s → load₁ t = load₂ t)
    (c : UInt64) : hash64StringWithSeedWith load₁ s c = hash64StringWithSeedWith load₂ s c := by
  simp only [hash64StringWithSeedWith]
  rw [blocks_congr h]
  have hrest := suffix_blocks_snd load₂ s.length (0xe08c1d668b756f82, 0xe08c1d668b756f82, c) s
  generalize blocks load₂ s.length _ s = r at hrest ⊢
  obtain ⟨⟨a, b, c'⟩, rest⟩ := r
  rw [tail_congr (fun t ht => h t (ht.trans hrest))]

end Congr

/-- With an unsigned `char` the portable build hashes every key as x86-64 does. -/
theorem hash64StringWithSeedWith_portable_unsigned (s : List UInt8) (c : UInt64) :
    hash64StringWithSeedWith (word64AtPortable false) s c = hash64StringWithSeed s c :=
  hash64StringWithSeedWith_congr (fun t _ => word64AtPortable_false t) c

/-- A key of bytes below `0x80` hashes alike in every build. -/
theorem hash64StringWithSeedWith_portable_of_lt (charIsSigned : Bool) {s : List UInt8}
    (h : ∀ byte ∈ s, byte.toNat < 128) (c : UInt64) :
    hash64StringWithSeedWith (word64AtPortable charIsSigned) s c = hash64StringWithSeed s c :=
  hash64StringWithSeedWith_congr
    (fun _ ht => word64AtPortable_of_lt (fun byte hb => h byte (ht.subset hb)) charIsSigned) c

end JenkinsHash

/-! ### The key of a statement -/

/-- `bytes_to_key` in a build whose `Word64At` is `load`: the hash of the bytes with seed 97,
folded to 16 bits. The `size_t` size is passed on as a `uint32_t`. -/
def bytesToKeyWith (load : List UInt8 → UInt64) (bytes : List UInt8) : BitVec 32 :=
  let h := JenkinsHash.hash64StringWithSeedWith load (bytes.take (bytes.length % 2 ^ 32)) 97
  let h1 : UInt64 := h >>> 48
  let h2 : UInt64 := (3 : UInt64) * (h >>> 32)
  let h3 : UInt64 := (5 : UInt64) * (h >>> 16)
  let h4 : UInt64 := (7 : UInt64) * (h &&& 0xffff)
  ((h1 ^^^ h2 ^^^ h3 ^^^ h4) &&& 0xffff).toBitVec.setWidth 32

/-- `bytes_to_key` as x86-64 builds it. -/
def bytesToKey (bytes : List UInt8) : BitVec 32 :=
  bytesToKeyWith JenkinsHash.word64At bytes

/-- With an unsigned `char` the portable build gives every key of bytes the x86-64 key. -/
theorem bytesToKeyWith_portable_unsigned (bytes : List UInt8) :
    bytesToKeyWith (JenkinsHash.word64AtPortable false) bytes = bytesToKey bytes := by
  rw [bytesToKey, bytesToKeyWith, bytesToKeyWith,
    JenkinsHash.hash64StringWithSeedWith_portable_unsigned, JenkinsHash.hash64StringWithSeed]

/-- The `bigint` key `-2^63`, whose first byte is `0x80`: a build with a signed `char` loads it
as `0xffffffffffffff80`, where x86-64 loads `0x80`, and gives it another hash and another key. -/
theorem bytesToKeyWith_signedChar :
    JenkinsHash.hash64StringWithSeedWith (JenkinsHash.word64AtPortable true)
        [0x80, 0, 0, 0, 0, 0, 0, 0] 97 ≠
      JenkinsHash.hash64StringWithSeed [0x80, 0, 0, 0, 0, 0, 0, 0] 97 ∧
    bytesToKeyWith (JenkinsHash.word64AtPortable true) [0x80, 0, 0, 0, 0, 0, 0, 0] ≠
      bytesToKey [0x80, 0, 0, 0, 0, 0, 0, 0] := by
  decide

lemma toNat_setWidth_and_lt (x : UInt64) :
    ((x &&& 0xffff).toBitVec.setWidth 32).toNat < 65536 := by
  rw [BitVec.toNat_setWidth, UInt64.toNat_toBitVec, UInt64.toNat_and]
  have hmask : (0xffff : UInt64).toNat = 65535 := rfl
  have hle : x.toNat &&& (0xffff : UInt64).toNat ≤ (0xffff : UInt64).toNat := Nat.and_le_right
  omega

/-- Every key is a 16-bit number. -/
theorem toNat_bytesToKey_lt (bytes : List UInt8) : (bytesToKey bytes).toNat < 65536 :=
  toNat_setWidth_and_lt _

/-- What `get_hash_key_from_execute` reads of the result of a prepared statement. -/
structure PreparedResult where
  keyspace : String
  table : String

/-- A bound statement: the result of its prepared statement (null when the prepare returned
none), the indices of the primary key among its values, and its values. -/
structure ExecuteRequest where
  result : Option PreparedResult
  keyIndices : List Nat
  elements : List Element

/-- `sizeof(int32_t)`, the length in front of a `[bytes]` value. -/
def headerSize : Nat := 4

/-- `get_buffer` at the highest protocol version, in a build without assertions: an unset
element returns its empty `buf_`. -/
def Element.keyBuffer (e : Element) : List UInt8 :=
  match e.getBuffer 4 with
  | .ok buf => buf
  | .error _ => []

/-- `get_hash_key_from_execute`: the key of the values at the key indices, each without its
length, and the table's full name. A buffer too short to hold a length adds nothing. The key
indices index the values. -/
def getHashKeyFromExecute (execute : ExecuteRequest) : Option (BitVec 32 × String) :=
  execute.result.map fun result =>
    -- the first loop keeps the buffers that hold a length; the second copies what follows it
    let buffers := ((execute.keyIndices.filterMap fun i => execute.elements[i]?).map
      Element.keyBuffer).filter (headerSize ≤ ·.length)
    (bytesToKey (buffers.flatMap (·.drop headerSize)), result.keyspace ++ "." ++ result.table)

/-- The requests `get_hash_code` tells apart by their opcode. A batch holds statements. -/
inductive Request
  | execute (execute : ExecuteRequest)
  | batch (statements : List Request)
  | other

namespace PartitionAwarePolicy

mutual

/-- `PartitionAwarePolicy::get_hash_code`: the key of a bound statement, or of the first
statement of a batch that has one. -/
def getHashCode : Request → Option (BitVec 32 × String)
  | .execute execute => getHashKeyFromExecute execute
  | .batch statements => getHashCodeFirst statements
  | .other => none

/-- The loop of `get_hash_code` over the statements of a batch. -/
def getHashCodeFirst : List Request → Option (BitVec 32 × String)
  | [] => none
  | statement :: statements =>
    match getHashCode statement with
    | some key => some key
    | none => getHashCodeFirst statements

end

mutual

/-- Every key `get_hash_code` finds is the key of a bound statement. -/
theorem exists_execute_of_getHashCode :
    ∀ {request : Request} {key : BitVec 32 × String}, getHashCode request = some key →
      ∃ execute, getHashKeyFromExecute execute = some key
  | .execute execute, _, h => ⟨execute, h⟩
  | .batch _, _, h => exists_execute_of_getHashCodeFirst h
  | .other, _, h => absurd h (by simp [getHashCode])

theorem exists_execute_of_getHashCodeFirst :
    ∀ {statements : List Request} {key : BitVec 32 × String},
      getHashCodeFirst statements = some key →
      ∃ execute, getHashKeyFromExecute execute = some key
  | [], _, h => absurd h (by simp [getHashCodeFirst])
  | statement :: _, _, h => by
    rw [getHashCodeFirst] at h
    split at h
    · rename_i found hfound
      rw [Option.some.inj h] at hfound
      exact exists_execute_of_getHashCode hfound
    · exact exists_execute_of_getHashCodeFirst h

end

/-- Every key `get_hash_code` finds is a 16-bit number. -/
theorem toNat_getHashCode_lt {request : Request} {hash : BitVec 32} {name : String}
    (h : getHashCode request = some (hash, name)) : hash.toNat < 65536 := by
  obtain ⟨execute, hexec⟩ := exists_execute_of_getHashCode h
  obtain ⟨result, -, hkey⟩ := Option.map_eq_some_iff.mp hexec
  rw [← (Prod.mk.inj hkey).1]
  exact toNat_bytesToKey_lt _

end PartitionAwarePolicy

/-! ### The YugabyteDB token -/

/-- `cql_to_yb_hash_code`: `static_cast<int64_t>(hash ^ 0x8000) << 48`, the exact value taken
modulo 2^64 as its conversion to `int64_t` does. -/
def cqlToYbHashCode (hash : BitVec 32) : BitVec 64 := (hash ^^^ 0x8000#32).signExtend 64 <<< 48

/-- [expr.shift] for a left operand of signed type, as C++14 words it and GCC and Clang apply it
to C++11 (DR1457): `x << n` is defined when `x` is not negative and `x * 2^n` is representable in
the corresponding unsigned type, and is then that value converted to the signed type. -/
def ShiftLeftDefined {w : Nat} (x : BitVec w) (n : Nat) : Prop :=
  0 ≤ x.toInt ∧ x.toInt * 2 ^ n < 2 ^ w

instance {w : Nat} (x : BitVec w) (n : Nat) : Decidable (ShiftLeftDefined x n) :=
  inferInstanceAs (Decidable (_ ∧ _))

/-- The exact value `x * 2^n` of a shift is representable in the signed type itself. -/
def ShiftLeftFits {w : Nat} (x : BitVec w) (n : Nat) : Prop :=
  0 ≤ x.toInt ∧ x.toInt * 2 ^ n < 2 ^ (w - 1)

instance {w : Nat} (x : BitVec w) (n : Nat) : Decidable (ShiftLeftFits x n) :=
  inferInstanceAs (Decidable (_ ∧ _))

/-- Whether the shift of `cql_to_yb_hash_code` is defined. -/
def CqlToYbHashCodeDefined (hash : BitVec 32) : Prop :=
  ShiftLeftDefined ((hash ^^^ 0x8000#32).signExtend 64) 48

instance (hash : BitVec 32) : Decidable (CqlToYbHashCodeDefined hash) :=
  inferInstanceAs (Decidable (ShiftLeftDefined _ _))

/-- Whether the exact value of the shift of `cql_to_yb_hash_code` fits `int64_t`. -/
def CqlToYbHashCodeFits (hash : BitVec 32) : Prop :=
  ShiftLeftFits ((hash ^^^ 0x8000#32).signExtend 64) 48

instance (hash : BitVec 32) : Decidable (CqlToYbHashCodeFits hash) :=
  inferInstanceAs (Decidable (ShiftLeftFits _ _))

namespace PartitionAwarePolicy

/-- `PartitionAwarePolicy::get_yb_hash_code`: the token of the key, and the table's full name. -/
def getYbHashCode (request : Request) : Option (BitVec 64 × String) :=
  (getHashCode request).map fun (hash, name) => (cqlToYbHashCode hash, name)

end PartitionAwarePolicy

/-- Flipping bit 15 of a 16-bit number moves it by 2^15. -/
lemma xor_two_pow_fifteen {n : Nat} (h : n < 2 ^ 16) :
    n ^^^ 2 ^ 15 = if n < 2 ^ 15 then n + 2 ^ 15 else n - 2 ^ 15 := by
  have hdiv : (n ^^^ 2 ^ 15) / 2 ^ 15 = n / 2 ^ 15 ^^^ 1 := by
    rw [Nat.xor_div_two_pow, Nat.div_self (Nat.two_pow_pos 15)]
  have hmod : (n ^^^ 2 ^ 15) % 2 ^ 15 = n % 2 ^ 15 := by
    rw [Nat.xor_mod_two_pow, Nat.mod_self, Nat.xor_zero]
  have hsplit := Nat.div_add_mod (n ^^^ 2 ^ 15) (2 ^ 15)
  split_ifs with hlt
  · rw [Nat.div_eq_of_lt hlt, Nat.zero_xor] at hdiv
    omega
  · have hhigh : n / 2 ^ 15 = 1 := by omega
    rw [hhigh, Nat.xor_self] at hdiv
    omega

section Token

variable {hash : BitVec 32}

lemma toNat_xor_sign (h : hash.toNat < 65536) :
    (hash ^^^ 0x8000#32).toNat =
      if hash.toNat < 32768 then hash.toNat + 32768 else hash.toNat - 32768 :=
  xor_two_pow_fifteen h

/-- The operand of the shift, `static_cast<int64_t>(hash ^ 0x8000)`, is the 16-bit number. -/
lemma toNat_signExtend_xor_sign (h : hash.toNat < 65536) :
    ((hash ^^^ 0x8000#32).signExtend 64).toNat = (hash ^^^ 0x8000#32).toNat := by
  have hxor := toNat_xor_sign h
  have hmsb : (hash ^^^ 0x8000#32).msb = false :=
    BitVec.msb_eq_false_iff_two_mul_lt.mpr (by split_ifs at hxor <;> omega)
  rw [BitVec.signExtend_eq_setWidth_of_msb_false hmsb, BitVec.toNat_setWidth,
    Nat.mod_eq_of_lt (by split_ifs at hxor <;> omega)]

/-- The operand of the shift, read as a signed number, is the 16-bit number. -/
lemma toInt_signExtend_xor_sign (h : hash.toNat < 65536) :
    ((hash ^^^ 0x8000#32).signExtend 64).toInt = (hash ^^^ 0x8000#32).toNat := by
  have hop := toNat_signExtend_xor_sign h
  have hxor := toNat_xor_sign h
  rw [BitVec.toInt_eq_toNat_of_lt (by split_ifs at hxor <;> omega), hop]

/-- The exact value of the shift fits `int64_t` for the upper half of the keys only: below
32768 the key moves up by 2^15, and shifted by 48 it passes `INT64_MAX`. -/
theorem cqlToYbHashCodeFits_iff (h : hash.toNat < 65536) :
    CqlToYbHashCodeFits hash ↔ 32768 ≤ hash.toNat := by
  have hxor := toNat_xor_sign h
  rw [CqlToYbHashCodeFits, ShiftLeftFits, toInt_signExtend_xor_sign h]
  split_ifs at hxor <;> omega

/-- The shift is defined for every key: the operand is below 2^16, so its exact value is below
2^64. -/
theorem cqlToYbHashCodeDefined (h : hash.toNat < 65536) : CqlToYbHashCodeDefined hash := by
  have hxor := toNat_xor_sign h
  rw [CqlToYbHashCodeDefined, ShiftLeftDefined, toInt_signExtend_xor_sign h]
  split_ifs at hxor <;> omega

/-- Wrapped to 64 bits, the token of `h` is `(h - 32768) * 2^48`. -/
theorem toInt_cqlToYbHashCode (h : hash.toNat < 65536) :
    (cqlToYbHashCode hash).toInt = ((hash.toNat : Int) - 32768) * 2 ^ 48 := by
  have hop := toNat_signExtend_xor_sign h
  have hxor := toNat_xor_sign h
  have hnat : (cqlToYbHashCode hash).toNat = (hash ^^^ 0x8000#32).toNat * 2 ^ 48 := by
    rw [cqlToYbHashCode, BitVec.toNat_shiftLeft, hop, Nat.shiftLeft_eq,
      Nat.mod_eq_of_lt (by split_ifs at hxor <;> omega)]
  rw [BitVec.toInt_eq_toNat_cond, hnat]
  split_ifs at hxor <;> omega

/-- Wrapped, the tokens are strictly increasing in the key. -/
theorem toInt_cqlToYbHashCode_lt {hash' : BitVec 32} (h' : hash'.toNat < 65536)
    (hlt : hash.toNat < hash'.toNat) :
    (cqlToYbHashCode hash).toInt < (cqlToYbHashCode hash').toInt := by
  rw [toInt_cqlToYbHashCode (by omega), toInt_cqlToYbHashCode h']
  have hcast : (hash.toNat : Int) < hash'.toNat := by exact_mod_cast hlt
  omega

end Token

namespace PartitionAwarePolicy

/-- The token `get_yb_hash_code` returns, wrapped, is `(h - 32768) * 2^48` for the key `h` of
`get_hash_code`. -/
theorem getYbHashCode_spec {request : Request} {token : BitVec 64} {name : String}
    (h : getYbHashCode request = some (token, name)) :
    ∃ hash, getHashCode request = some (hash, name) ∧ hash.toNat < 65536 ∧
      token.toInt = ((hash.toNat : Int) - 32768) * 2 ^ 48 := by
  obtain ⟨⟨hash, name'⟩, hcode, htoken⟩ := Option.map_eq_some_iff.mp h
  obtain ⟨rfl, rfl⟩ := Prod.mk.inj htoken
  have hlt := toNat_getHashCode_lt hcode
  exact ⟨hash, hcode, hlt, toInt_cqlToYbHashCode hlt⟩

/-- A bound statement whose key is the `int` 1: its key is 4624, below 32768, so the exact value
of the shift that makes its token leaves `int64_t`, though the shift is defined. -/
theorem getYbHashCode_shiftOutOfRange :
    let request : Request := .execute ⟨some ⟨"ks", "t"⟩, [0], [.buffer [0, 0, 0, 4, 0, 0, 0, 1]]⟩
    (getHashCode request).map Prod.fst = some 0x1210#32 ∧ ¬ CqlToYbHashCodeFits 0x1210#32 ∧
      CqlToYbHashCodeDefined 0x1210#32 := by
  decide

end PartitionAwarePolicy

/-! ### Partitions -/

/-- `bytes_to_hash_code`: a blob read into an `int32_t`, `result = (result << 8) | byte`. -/
def bytesToHashCode (data : List UInt8) : BitVec 32 :=
  data.foldl (fun result byte => (result <<< 8) ||| byte.toBitVec.setWidth 32) 0

/-- One step of the loop: shifting in a byte appends it to the big-endian number. -/
lemma toNat_shiftIn_byte (result : BitVec 32) (byte : UInt8) :
    ((result <<< 8) ||| byte.toBitVec.setWidth 32).toNat =
      2 ^ 8 * (result.toNat % 2 ^ 24) + byte.toNat := by
  have hbyte : byte.toNat < 2 ^ 8 := byte.toNat_lt
  have hshift : result.toNat <<< 8 % 2 ^ 32 = 2 ^ 8 * (result.toNat % 2 ^ 24) := by
    rw [Nat.shiftLeft_eq]
    omega
  rw [BitVec.toNat_or, BitVec.toNat_shiftLeft, BitVec.toNat_setWidth, UInt8.toNat_toBitVec,
    Nat.mod_eq_of_lt (show byte.toNat < 2 ^ 32 by omega), hshift,
    Nat.two_pow_add_eq_or_of_lt hbyte]

lemma toNat_foldl_shiftIn_byte (data : List UInt8) {result : BitVec 32} {n : Nat}
    (h : result.toNat = n % 2 ^ 32) :
    (data.foldl (fun (result : BitVec 32) (byte : UInt8) =>
        (result <<< 8) ||| byte.toBitVec.setWidth 32) result).toNat =
      data.foldl (fun acc b => acc * 256 + b.toNat) n % 2 ^ 32 := by
  induction data generalizing result n with
  | nil => exact h
  | cons byte data ih =>
    have hbyte : byte.toNat < 256 := byte.toNat_lt
    apply ih
    rw [toNat_shiftIn_byte, h]
    dsimp only
    omega

/-- The blob is read big-endian, modulo 2^32. -/
theorem toNat_bytesToHashCode (data : List UInt8) :
    (bytesToHashCode data).toNat = BigEndian.decode data % 2 ^ 32 :=
  toNat_foldl_shiftIn_byte data (n := 0) rfl

/-- A blob of at most three bytes, the two-byte start keys of YugabyteDB among them, is read
as its big-endian unsigned number. -/
theorem toInt_bytesToHashCode {data : List UInt8} (h : data.length ≤ 3) :
    (bytesToHashCode data).toInt = BigEndian.decode data := by
  have hlt : BigEndian.decode data < 2 ^ 24 := by
    have hbound := BigEndian.decode_lt data
    have hpow : 256 ^ data.length ≤ 256 ^ 3 := Nat.pow_le_pow_right (by decide) h
    omega
  have hnat := toNat_bytesToHashCode data
  rw [Nat.mod_eq_of_lt (by omega)] at hnat
  rw [BitVec.toInt_eq_toNat_of_lt (by omega), hnat]

/-- `PartitionMetadata`: a tablet's start and end keys, and the addresses of its replicas. -/
structure PartitionMetadata where
  startKey : BitVec 32
  endKey : BitVec 32
  hostIps : List String

/-- `TableSplitMetadata`: the partitions of a table, sorted by start key, which compare as
`int32_t`. -/
structure TableSplitMetadata where
  partitions : List PartitionMetadata
  sorted : partitions.Pairwise fun a b => a.startKey.toInt ≤ b.startKey.toInt

namespace TableSplitMetadata

/-- `TableSplitMetadata(source)`: the partitions sorted by `std::sort`, which leaves partitions
of one start key in an order of its own; here that of `source`. -/
def ofList (source : List PartitionMetadata) : TableSplitMetadata where
  partitions := source.mergeSort fun a b => decide (a.startKey.toInt ≤ b.startKey.toInt)
  sorted := by
    refine (List.pairwise_mergeSort (fun a b c hab hbc => ?_) (fun a b => ?_) source).imp ?_
    · simp only [decide_eq_true_eq] at hab hbc ⊢
      exact le_trans hab hbc
    · simpa using le_total a.startKey.toInt b.startKey.toInt
    · intro a b h
      exact of_decide_eq_true h

lemma perm_ofList (source : List PartitionMetadata) : (ofList source).partitions.Perm source :=
  List.mergeSort_perm _ _

/-- `get_partition_metadata`: the partition before the first whose start key is above the key,
found with `upper_bound`, or null when there is none before it. -/
def getPartitionMetadata (t : TableSplitMetadata) (key : BitVec 32) :
    Option PartitionMetadata :=
  let index : Int :=
    (UpperBound.upperBound (fun pm => decide (key.toInt < pm.startKey.toInt)) t.partitions : Int)
      - 1
  if index < 0 then none else t.partitions[index.toNat]?

/-- `get_hosts`: the addresses of the partition of the key. -/
def getHosts (t : TableSplitMetadata) (key : BitVec 32) : Option (List String) :=
  (t.getPartitionMetadata key).map (·.hostIps)

/-- The partition found is the last of the run of partitions whose start key is at most the
key. -/
lemma getPartitionMetadata_eq (t : TableSplitMetadata) (key : BitVec 32) :
    t.getPartitionMetadata key =
      (t.partitions.takeWhile fun pm => decide (pm.startKey.toInt ≤ key.toInt)).getLast? := by
  have htake := UpperBound.take_upperBound (f := fun pm : PartitionMetadata => pm.startKey.toInt)
    t.sorted key.toInt
  rw [← htake, List.getLast?_take, getPartitionMetadata]
  have hle : UpperBound.upperBound (fun pm => decide (key.toInt < pm.startKey.toInt))
      t.partitions ≤ t.partitions.length := by
    exact UpperBound.upperBound_le_length (UpperBound.partitioned_of_pairwise
      (f := fun pm : PartitionMetadata => pm.startKey.toInt) t.sorted key.toInt)
  generalize UpperBound.upperBound (fun pm => decide (key.toInt < pm.startKey.toInt))
    t.partitions = i at hle
  by_cases h0 : i = 0
  · simp [h0]
  · rw [if_neg (by omega), if_neg h0, show ((i : Int) - 1).toNat = i - 1 by omega,
      List.getElem?_eq_getElem (by omega), Option.some_or]

/-- The partition of a key is one with the greatest start key at most the key. -/
theorem getPartitionMetadata_spec {t : TableSplitMetadata} {key : BitVec 32}
    {pm : PartitionMetadata} (h : t.getPartitionMetadata key = some pm) :
    pm ∈ t.partitions ∧ pm.startKey.toInt ≤ key.toInt ∧
      ∀ q ∈ t.partitions, q.startKey.toInt ≤ key.toInt → q.startKey.toInt ≤ pm.startKey.toInt := by
  rw [getPartitionMetadata_eq] at h
  exact UpperBound.getLast?_takeWhile_le t.sorted h

/-- A key has no partition exactly when every start key is above it. -/
theorem getPartitionMetadata_eq_none_iff (t : TableSplitMetadata) (key : BitVec 32) :
    t.getPartitionMetadata key = none ↔ ∀ q ∈ t.partitions, key.toInt < q.startKey.toInt := by
  rw [getPartitionMetadata_eq]
  exact UpperBound.getLast?_takeWhile_le_eq_none t.sorted key.toInt

end TableSplitMetadata

/-! ### `update_partitions` -/

/-- A row of `system.partitions` as `update_partitions` reads it: a column that is missing or not
of the type read is `none`. Each replica address is the text `to_string(false)` prints for it
(`none` where `Address::from_inet` rejects its bytes), with its role. -/
structure PartitionRow where
  keyspaceName : Option String
  tableName : Option String
  startKey : Option (List UInt8)
  endKey : Option (List UInt8)
  replicaAddresses : Option (List (Option String × String))

namespace Metadata

/-- One entry of the loop over `replica_addresses`: the leader goes to the front, another replica
to the back. -/
def addReplica (hostIps : List String) : Option String × String → List String
  | (none, _) => hostIps
  | (some address, role) => if role = "LEADER" then address :: hostIps else hostIps ++ [address]

/-- The addresses of the leaders among the replicas, in the map's order. -/
def leaderIps (replicas : List (Option String × String)) : List String :=
  replicas.filterMap fun (address, role) => if role = "LEADER" then address else none

/-- The addresses of the other replicas, in the map's order. -/
def followerIps (replicas : List (Option String × String)) : List String :=
  replicas.filterMap fun (address, role) => if role = "LEADER" then none else address

/-- The loop puts the leaders in front, the last first, and the other replicas behind, in
order. -/
lemma foldl_addReplica (replicas : List (Option String × String)) (hostIps : List String) :
    replicas.foldl addReplica hostIps =
      (leaderIps replicas).reverse ++ hostIps ++ followerIps replicas := by
  induction replicas generalizing hostIps with
  | nil => simp [leaderIps, followerIps]
  | cons replica replicas ih =>
    obtain ⟨address, role⟩ := replica
    rw [List.foldl_cons, ih]
    cases address with
    | none => simp [addReplica, leaderIps, followerIps]
    | some address =>
      by_cases hrole : role = "LEADER" <;> simp [addReplica, leaderIps, followerIps, hrole]

/-- The body of the loop of `update_partitions` for one row: the table's full name and its
partition, or `none` where the row is skipped. -/
def parseRow (row : PartitionRow) : Option (String × PartitionMetadata) := do
  let keyspaceName ← row.keyspaceName
  let tableName ← row.tableName
  let start ← row.startKey
  let stop ← row.endKey
  let replicas ← row.replicaAddresses
  pure (keyspaceName ++ "." ++ tableName,
    ⟨bytesToHashCode start, bytesToHashCode stop, replicas.foldl addReplica []⟩)

/-- A partition read from a row has the row's keys, and the row's leader in front of its other
replicas. -/
lemma parseRow_eq_some {row : PartitionRow} {name : String} {pm : PartitionMetadata}
    (h : parseRow row = some (name, pm)) :
    ∃ start stop replicas, row.startKey = some start ∧ row.endKey = some stop ∧
      row.replicaAddresses = some replicas ∧ pm.startKey = bytesToHashCode start ∧
      pm.endKey = bytesToHashCode stop ∧
      pm.hostIps = (leaderIps replicas).reverse ++ followerIps replicas := by
  obtain ⟨keyspaceName, tableName, start, stop, replicas⟩ := row
  cases keyspaceName <;> cases tableName <;> cases start <;> cases stop <;>
    cases replicas <;> simp only [parseRow, Option.bind_eq_bind, Option.bind_none,
      Option.bind_some, Option.pure_def, reduceCtorEq, Option.some.injEq, Prod.mk.injEq] at h
  obtain ⟨-, rfl⟩ := h
  exact ⟨_, _, _, rfl, rfl, rfl, rfl, rfl, by rw [foldl_addReplica, List.append_nil]⟩

/-- `splits_source`: the partitions of each table, in the order of their rows. -/
def splitsSource (rows : List PartitionRow) : String → List PartitionMetadata :=
  rows.foldl (fun splits row =>
    match parseRow row with
    | some (name, partition) => Function.update splits name (splits name ++ [partition])
    | none => splits) fun _ => []

lemma foldl_splitsSource (rows : List PartitionRow) (splits : String → List PartitionMetadata)
    (name : String) :
    rows.foldl (fun splits row =>
        match parseRow row with
        | some (name, partition) => Function.update splits name (splits name ++ [partition])
        | none => splits) splits name =
      splits name ++ (rows.filterMap parseRow).filterMap fun p =>
        if p.1 = name then some p.2 else none := by
  induction rows generalizing splits with
  | nil => simp
  | cons row rows ih =>
    rw [List.foldl_cons, ih]
    cases hrow : parseRow row with
    | none => simp [hrow]
    | some p =>
      obtain ⟨name', partition⟩ := p
      by_cases hname : name' = name
      · subst hname
        simp [hrow]
      · simp [hrow, Function.update_of_ne (Ne.symm hname), hname]

/-- A partition is in the table's `splits_source` exactly when a row of the table gave it. -/
lemma mem_splitsSource {rows : List PartitionRow} {name : String} {pm : PartitionMetadata} :
    pm ∈ splitsSource rows name ↔ ∃ row ∈ rows, parseRow row = some (name, pm) := by
  rw [splitsSource, foldl_splitsSource, List.nil_append]
  simp only [List.mem_filterMap, Option.ite_none_right_eq_some, Option.some.injEq]
  constructor
  · rintro ⟨⟨name', pm'⟩, ⟨row, hrow, hparse⟩, rfl, rfl⟩
    exact ⟨row, hrow, hparse⟩
  · rintro ⟨row, hrow, hparse⟩
    exact ⟨(name, pm), ⟨row, hrow, hparse⟩, rfl, rfl⟩

/-- `Metadata::InternalData::update_partitions`: the partitions of each table by its full name.
A table is in the `std::map` once a row has pushed a partition for it. -/
def updatePartitions (rows : List PartitionRow) (fullTableName : String) :
    Option TableSplitMetadata :=
  match splitsSource rows fullTableName with
  | [] => none
  | source => some (TableSplitMetadata.ofList source)

/-- The partitions of a table after `update_partitions` are those its rows gave. -/
lemma mem_updatePartitions {rows : List PartitionRow} {name : String} {t : TableSplitMetadata}
    (ht : updatePartitions rows name = some t) {pm : PartitionMetadata} :
    pm ∈ t.partitions ↔ ∃ row ∈ rows, parseRow row = some (name, pm) := by
  rw [updatePartitions] at ht
  split at ht
  · exact absurd ht (Option.some_ne_none _).symm
  · rw [← Option.some.inj ht, (TableSplitMetadata.perm_ofList _).mem_iff, mem_splitsSource]

/-- After `update_partitions` the hosts of a key are those of a row of the table with the
greatest start key at most the key: its leader first, then its other replicas. -/
theorem getHosts_updatePartitions {rows : List PartitionRow} {name : String}
    {t : TableSplitMetadata} (ht : updatePartitions rows name = some t) {key : BitVec 32}
    {ips : List String} (h : t.getHosts key = some ips) :
    ∃ row ∈ rows, ∃ pm replicas, parseRow row = some (name, pm) ∧
      row.replicaAddresses = some replicas ∧
      ips = (leaderIps replicas).reverse ++ followerIps replicas ∧
      pm.startKey.toInt ≤ key.toInt ∧
      ∀ row' ∈ rows, ∀ pm', parseRow row' = some (name, pm') →
        pm'.startKey.toInt ≤ key.toInt → pm'.startKey.toInt ≤ pm.startKey.toInt := by
  obtain ⟨pm, hpm, rfl⟩ := Option.map_eq_some_iff.mp h
  obtain ⟨hmem, hle, hgreatest⟩ := TableSplitMetadata.getPartitionMetadata_spec hpm
  obtain ⟨row, hrow, hparse⟩ := (mem_updatePartitions ht).mp hmem
  obtain ⟨-, -, replicas, -, -, hreplicas, -, -, hips⟩ := parseRow_eq_some hparse
  refine ⟨row, hrow, pm, replicas, hparse, hreplicas, hips, hle, ?_⟩
  intro row' hrow' pm' hparse' hle'
  exact hgreatest pm' ((mem_updatePartitions ht).mpr ⟨row', hrow', hparse'⟩) hle'

end Metadata

/-! ### `new_query_plan` -/

namespace PartitionAwarePolicy

variable {α : Type}

/-- The first host whose address prints as the replica's text. -/
def matchHost (toString : α → String) (hosts : List (Host α)) (ip : String) :
    Option (Host α) :=
  hosts.find? fun host => toString host.address = ip

/-- The loop of `new_query_plan` over the tablet's addresses: the host of the first address is
inserted at the front, that of another pushed to the back; an address of no host is passed
over. -/
def replicasOf (toString : α → String) (hosts : List (Host α)) (ipList : List String) :
    List (Host α) :=
  ipList.zipIdx.foldl (fun replicas (ip, i) =>
    match matchHost toString hosts ip with
    | some host => if i = 0 then host :: replicas else replicas ++ [host]
    | none => replicas) []

lemma foldl_replicasOf (toString : α → String) (hosts : List (Host α)) (ipList : List String)
    {k : Nat} (hk : 0 < k) (replicas : List (Host α)) :
    (ipList.zipIdx k).foldl (fun replicas (ip, i) =>
        match matchHost toString hosts ip with
        | some host => if i = 0 then host :: replicas else replicas ++ [host]
        | none => replicas) replicas =
      replicas ++ ipList.filterMap (matchHost toString hosts) := by
  induction ipList generalizing k replicas with
  | nil => simp
  | cons ip ipList ih =>
    rw [List.zipIdx_cons, List.foldl_cons, ih (Nat.succ_pos k)]
    cases hmatch : matchHost toString hosts ip with
    | none => simp [hmatch]
    | some host => simp [hmatch, Nat.pos_iff_ne_zero.mp hk]

/-- The host of the first address goes first, into an empty list, so the replicas are the hosts
of the addresses in their order. -/
theorem replicasOf_eq (toString : α → String) (hosts : List (Host α)) (ipList : List String) :
    replicasOf toString hosts ipList = ipList.filterMap (matchHost toString hosts) := by
  cases ipList with
  | nil => rfl
  | cons ip ipList =>
    rw [replicasOf, List.zipIdx_cons, List.foldl_cons, foldl_replicasOf _ _ _ Nat.one_pos]
    cases hmatch : matchHost toString hosts ip with
    | none => simp [hmatch]
    | some host => simp [hmatch]

/-- `PartitionAwarePolicy::new_query_plan`: a partition-aware plan over the replicas of the
tablet of the request's key, or `none` where the child policy's plan is used. -/
def newQueryPlan (toString : α → String) (hosts : List (Host α))
    (partitions : String → Option TableSplitMetadata) (request : Request)
    (child : List (Host α)) (index : Nat) : Option (PartitionAwareQueryPlan α) := do
  let (hashKey, fullTableName) ← getHashCode request
  let table ← partitions fullTableName
  let ipList ← table.getHosts hashKey
  pure (PartitionAwareQueryPlan.new child (replicasOf toString hosts ipList) index)

/-- After `update_partitions`, a partition-aware plan is made over the hosts of the row of the
statement's table with the greatest start key at most the statement's key: the leader's first,
then the other replicas'. -/
theorem newQueryPlan_spec {toString : α → String} {hosts : List (Host α)}
    {rows : List PartitionRow} {request : Request} {child : List (Host α)} {index : Nat}
    {q : PartitionAwareQueryPlan α}
    (hq : newQueryPlan toString hosts (Metadata.updatePartitions rows) request child index =
      some q) :
    ∃ hashKey name, getHashCode request = some (hashKey, name) ∧ hashKey.toNat < 65536 ∧
      ∃ row ∈ rows, ∃ pm replicas, Metadata.parseRow row = some (name, pm) ∧
        row.replicaAddresses = some replicas ∧
        pm.startKey.toInt ≤ hashKey.toInt ∧
        (∀ row' ∈ rows, ∀ pm', Metadata.parseRow row' = some (name, pm') →
          pm'.startKey.toInt ≤ hashKey.toInt → pm'.startKey.toInt ≤ pm.startKey.toInt) ∧
        q = PartitionAwareQueryPlan.new child
          (((Metadata.leaderIps replicas).reverse ++ Metadata.followerIps replicas).filterMap
            (matchHost toString hosts)) index := by
  simp only [newQueryPlan, Option.bind_eq_bind, Option.pure_def, Option.bind_eq_some_iff,
    Option.some.injEq] at hq
  obtain ⟨⟨hashKey, name⟩, hcode, t, ht, ips, hips, rfl⟩ := hq
  obtain ⟨row, hrow, pm, replicas, hparse, hreplicas, rfl, hle, hgreatest⟩ :=
    Metadata.getHosts_updatePartitions ht hips
  exact ⟨hashKey, name, hcode, toNat_getHashCode_lt hcode, row, hrow, pm, replicas, hparse,
    hreplicas, hle, hgreatest, by rw [replicasOf_eq]⟩

/-- Partition-aware routing as the code computes it. The key of a request is that of a bound
statement, a 16-bit number whose shift is defined and gives the token `(h - 32768) * 2^48`, and
the tokens increase with the keys. After `update_partitions` the hosts of a key are the addresses
of the row of its table with the greatest start key at most the key, the leader's first; and
`new_query_plan` builds its plan over the hosts of those addresses, in that order. -/
theorem partitionAwareRouting :
    (∀ (request : Request) (token : BitVec 64) (name : String),
      getYbHashCode request = some (token, name) →
      ∃ hash execute, getHashCode request = some (hash, name) ∧
        getHashKeyFromExecute execute = some (hash, name) ∧ hash.toNat < 65536 ∧
        CqlToYbHashCodeDefined hash ∧ token.toInt = ((hash.toNat : Int) - 32768) * 2 ^ 48) ∧
    (∀ hash hash' : BitVec 32, hash'.toNat < 65536 → hash.toNat < hash'.toNat →
      (cqlToYbHashCode hash).toInt < (cqlToYbHashCode hash').toInt) ∧
    (∀ (rows : List PartitionRow) (name : String) (t : TableSplitMetadata) (key : BitVec 32)
        (ips : List String), Metadata.updatePartitions rows name = some t →
      t.getHosts key = some ips →
      ∃ row ∈ rows, ∃ pm replicas, Metadata.parseRow row = some (name, pm) ∧
        row.replicaAddresses = some replicas ∧
        ips = (Metadata.leaderIps replicas).reverse ++ Metadata.followerIps replicas ∧
        pm.startKey.toInt ≤ key.toInt ∧
        ∀ row' ∈ rows, ∀ pm', Metadata.parseRow row' = some (name, pm') →
          pm'.startKey.toInt ≤ key.toInt → pm'.startKey.toInt ≤ pm.startKey.toInt) ∧
    (∀ (β : Type) (toString : β → String) (hosts : List (Host β)) (rows : List PartitionRow)
        (request : Request) (child : List (Host β)) (index : Nat) (q : PartitionAwareQueryPlan β),
      newQueryPlan toString hosts (Metadata.updatePartitions rows) request child index = some q →
      ∃ hashKey name, getHashCode request = some (hashKey, name) ∧ hashKey.toNat < 65536 ∧
        ∃ row ∈ rows, ∃ pm replicas, Metadata.parseRow row = some (name, pm) ∧
          row.replicaAddresses = some replicas ∧
          pm.startKey.toInt ≤ hashKey.toInt ∧
          (∀ row' ∈ rows, ∀ pm', Metadata.parseRow row' = some (name, pm') →
            pm'.startKey.toInt ≤ hashKey.toInt → pm'.startKey.toInt ≤ pm.startKey.toInt) ∧
          q = PartitionAwareQueryPlan.new child
            (((Metadata.leaderIps replicas).reverse ++ Metadata.followerIps replicas).filterMap
              (matchHost toString hosts)) index) := by
  refine ⟨fun request token name h => ?_, fun _ _ h' hlt => toInt_cqlToYbHashCode_lt h' hlt,
    fun _ _ _ _ _ ht h => Metadata.getHosts_updatePartitions ht h,
    fun _ _ _ _ _ _ _ _ hq => newQueryPlan_spec hq⟩
  -- the token: a key of a bound statement, shifted
  obtain ⟨hash, hcode, hlt, htoken⟩ := getYbHashCode_spec h
  obtain ⟨execute, hexec⟩ := exists_execute_of_getHashCode hcode
  exact ⟨hash, execute, hcode, hexec, hlt, cqlToYbHashCodeDefined hlt, htoken⟩

end PartitionAwarePolicy

end CassandraDriver
