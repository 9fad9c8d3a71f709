import CassandraDriver.Value.Basic
import CassandraDriver.Data.ZigZag

/-!
# Durations

A `duration` value is three signed integers, months, days and nanoseconds, each zig-zag
encoded and written as a vint: one byte for values below `2 ^ 7`, otherwise `n` bytes, big
endian, whose first byte starts with `n - 1` one bits; nine bytes start with `0xff`. Words are
`BitVec`s: the code computes the zig-zag values in `int64_t` and `uint64_t` with shifts and
masks, and counts leading zeros of 64-bit words.
-/

namespace CassandraDriver

/-- `CassDuration` -/
structure CassDuration where
  months : BitVec 32
  days : BitVec 32
  nanos : BitVec 64

/-- `num_leading_zeros` (`__builtin_clzll`): the zero bits above the highest one bit, `64` for
zero. -/
def numLeadingZeros (value : BitVec 64) : Nat :=
  if value = 0 then 64 else countFrom value 64
where
  /-- The zero bits met from bit `i - 1` down before the first one bit. -/
  countFrom (value : BitVec 64) : Nat → Nat
    | 0 => 0
    | i + 1 => if value.getLsbD i then 0 else countFrom value i + 1

/-- `vint_size`: or-ing `1` in keeps the magnitude below `64`. -/
def vintSize (value : BitVec 64) : Nat :=
  let magnitude := numLeadingZeros (value ||| 1#64)
  if magnitude ≠ 0 then 9 - (magnitude - 1) / 7 else 9

/-- `encode_vint`: the value's `value_size` low bytes, most significant first, with
`value_size - 1` one bits or-ed into the first byte. -/
def encodeVint (value : BitVec 64) (valueSize : Nat) : List UInt8 :=
  -- "This is just a one byte value"
  if valueSize = 1 then [UInt8.ofNat value.toNat]
  else
    match BigEndian.encode valueSize value.toNat with
    | [] => []
    | first :: rest => (first ||| ~~~(UInt8.ofNat (0xff >>> (valueSize - 1)))) :: rest

/-- The zig-zag values of the three fields; the 32-bit fields are widened to `int64_t`. -/
def CassDuration.zigzagValues (value : CassDuration) : List (BitVec 64) :=
  [ZigZag.encode (value.months.signExtend 64), ZigZag.encode (value.days.signExtend 64),
    ZigZag.encode value.nanos]

/-- `encode_internal`: each zig-zag value as a vint of its `vint_size`, after their total size
as an `[int]` when `with_length` is set. -/
def encodeInternal (value : CassDuration) (withLength : Bool) : List UInt8 :=
  let vintSizes := value.zigzagValues.map vintSize
  let dataSize := vintSizes.sum
  (if withLength then BigEndian.encodeInt 4 dataSize else []) ++
    (value.zigzagValues.zip vintSizes).flatMap fun v => encodeVint v.1 v.2

/-- `encode(CassDuration)` -/
def encodeDuration (value : CassDuration) : List UInt8 := encodeInternal value false

/-- A byte of the buffer; reading outside it is `none`. -/
def readByte (mem : List UInt8) (pos : Int) : Option UInt8 :=
  (BigEndian.slice mem pos 1).bind List.head?

/-- One turn of the loop of `decode_vint`: `*output <<= 8; *output |= b & 0xff`. -/
def shiftIn (output : BitVec 64) (b : UInt8) : BitVec 64 :=
  (output <<< 8) ||| BitVec.ofNat 64 b.toNat

/-- `decode_vint`: the value and the position after it, or `none` for `NULL` when the extra
bytes run past `end`. The first byte is read without a check. -/
def decodeVint (mem : List UInt8) (input end_ : Int) : Option (Option (BitVec 64 × Int)) := do
  let firstByte ← readByte mem input
  let input := input + 1
  if firstByte.toNat ≤ 127 then pure (some (BitVec.ofNat 64 firstByte.toNat, input))
  else
    let numExtraBytes := numLeadingZeros (BitVec.ofNat 64 (~~~firstByte).toNat) - 56
    if input + numExtraBytes > end_ then pure none
    else
      let bytes ← BigEndian.slice mem input numExtraBytes
      pure (some (bytes.foldl shiftIn (BitVec.ofNat 64 (firstByte.toNat &&& (0xff >>> numExtraBytes))),
        input + numExtraBytes))

/-- `cass_value_get_duration`: months, days and nanoseconds, each decoded and narrowed to the
width of its field; the months and days vints must leave bytes after them, and the nanoseconds
vint must end the value. -/
def getDuration (mem : List UInt8) (value : Value) :
    Option (Except CassError (BitVec 32 × BitVec 32 × BitVec 64)) := do
  if value.isNull then return .error .libNullValue
  if value.valueType ≠ .duration then return .error .libInvalidValueType
  let end_ := value.data + value.size
  let some (months, cur) ← decodeVint mem value.data end_ | return .error .libBadParams
  if cur = end_ then return .error .libBadParams
  let some (days, cur) ← decodeVint mem cur end_ | return .error .libBadParams
  if cur = end_ then return .error .libBadParams
  let some (nanos, cur) ← decodeVint mem cur end_ | return .error .libBadParams
  if cur ≠ end_ then return .error .libBadParams
  return .ok ((ZigZag.decode months).setWidth 32, (ZigZag.decode days).setWidth 32,
    ZigZag.decode nanos)

/-! ### Counting leading zeros -/

/-- Below a one bit `k` with no one bit above it up to `i`, the count is the zeros between. -/
lemma countFrom_eq {value : BitVec 64} {k : Nat} (hk : value.getLsbD k = true) :
    ∀ i, k < i → (∀ j, k < j → j < i → value.getLsbD j = false) →
      numLeadingZeros.countFrom value i = i - 1 - k := by
  intro i
  induction i with
  | zero => intro h; omega
  | succ i ih =>
    intro hki habove
    rw [numLeadingZeros.countFrom]
    by_cases hik : i = k
    · subst hik
      rw [if_pos hk]
      omega
    · have hbit := habove i (by omega) (by omega)
      rw [if_neg (by simp [hbit]), ih (by omega) fun j hkj hji => habove j hkj (by omega)]
      omega

/-- A word whose highest one bit is bit `k` has `63 - k` leading zeros. -/
lemma numLeadingZeros_of_bounds {value : BitVec 64} {k : Nat} (hlo : 2 ^ k ≤ value.toNat)
    (hhi : value.toNat < 2 ^ (k + 1)) : numLeadingZeros value = 63 - k := by
  have hk : k < 64 := (Nat.pow_lt_pow_iff_right (by norm_num)).1 (hlo.trans_lt value.isLt)
  have hne : value ≠ 0 := by
    intro h
    subst h
    simp at hlo
  have hbit : value.getLsbD k = true := by
    have hsplit : value.toNat = 2 ^ k + (value.toNat - 2 ^ k) := by omega
    rw [← BitVec.testBit_toNat, hsplit, Nat.testBit_two_pow_add_eq,
      Nat.testBit_lt_two_pow (by rw [pow_succ] at hhi; omega)]
    rfl
  have habove : ∀ j, k < j → j < 64 → value.getLsbD j = false := by
    intro j hkj _
    rw [← BitVec.testBit_toNat]
    exact Nat.testBit_lt_two_pow (hhi.trans_le (Nat.pow_le_pow_right (by norm_num) hkj))
  rw [numLeadingZeros, if_neg hne, countFrom_eq hbit 64 hk habove]

/-! ### The size of a vint

`vint_size` is the shortest size that holds the word: what a size holds is said by `VintFits`,
and the size is read off the highest one bit of the word. -/

/-- A vint of `size` bytes holds `x`: one to nine bytes, with seven bits of value a byte up to
eight bytes, and every 64-bit word in nine. -/
def VintFits (size x : Nat) : Prop := 1 ≤ size ∧ size ≤ 9 ∧ (size ≤ 8 → x < 2 ^ (7 * size))

instance (size x : Nat) : Decidable (VintFits size x) := inferInstanceAs (Decidable (_ ∧ _ ∧ _))

lemma or_one_ne_zero (x : Nat) : x ||| 1 ≠ 0 :=
  Nat.pos_iff_ne_zero.1 (Nat.lt_of_lt_of_le Nat.one_pos Nat.right_le_or)

/-- `vint_size` in terms of the highest one bit of the word with `1` or-ed in. -/
lemma vintSize_eq (value : BitVec 64) :
    vintSize value = if 63 - (value.toNat ||| 1).log2 ≠ 0
      then 9 - (63 - (value.toNat ||| 1).log2 - 1) / 7 else 9 := by
  have hor : (value ||| 1#64).toNat = value.toNat ||| 1 := by simp
  have hmag : numLeadingZeros (value ||| 1#64) = 63 - (value.toNat ||| 1).log2 :=
    numLeadingZeros_of_bounds (hor ▸ Nat.log2_self_le (or_one_ne_zero _)) (hor ▸ Nat.lt_log2_self)
  rw [vintSize, hmag]

/-- `vint_size` is a size a vint of the word can have. -/
theorem vintSize_fits (value : BitVec 64) : VintFits (vintSize value) value.toNat := by
  have hsize := vintSize_eq value
  refine ⟨by split at hsize <;> omega, by split at hsize <;> omega, fun h8 => ?_⟩
  -- at most eight bytes: the highest one bit lies below seven bits a byte
  have hk : (value.toNat ||| 1).log2 + 1 ≤ 7 * vintSize value := by split at hsize <;> omega
  calc value.toNat ≤ value.toNat ||| 1 := Nat.left_le_or
    _ < 2 ^ ((value.toNat ||| 1).log2 + 1) := Nat.lt_log2_self
    _ ≤ 2 ^ (7 * vintSize value) := Nat.pow_le_pow_right (by norm_num) hk

/-- No shorter vint holds the word. -/
theorem vintSize_le_of_fits (value : BitVec 64) {size : Nat} (h : VintFits size value.toNat) :
    vintSize value ≤ size := by
  obtain ⟨h1, h9, hfit⟩ := h
  have hsize := vintSize_eq value
  by_cases h8 : size ≤ 8
  · -- the highest one bit of the word with 1 or-ed in lies below 7 * size
    have hlt : value.toNat ||| 1 < 2 ^ (7 * size) :=
      Nat.or_lt_two_pow (hfit h8) (Nat.one_lt_two_pow (by omega))
    have hk : (value.toNat ||| 1).log2 < 7 * size :=
      (Nat.pow_lt_pow_iff_right (by norm_num)).1 ((Nat.log2_self_le (or_one_ne_zero _)).trans_lt hlt)
    split at hsize <;> omega
  · split at hsize <;> omega

/-- A word of 57 bits needs the nine-byte form. -/
example : vintSize (BitVec.ofNat 64 (2 ^ 56)) = 9 := by decide

/-! ### The first byte of a vint -/

/-- The first byte of a vint of `m + 1` bytes: the value's high bits `hi` below `m` one bits. -/
lemma toNat_firstByte {m hi : Nat} (hm1 : 1 ≤ m) (hm8 : m ≤ 8) (hhi : hi < 2 ^ (8 - m)) :
    (UInt8.ofNat hi ||| ~~~UInt8.ofNat (0xff >>> m)).toNat = 2 ^ (8 - m) * (2 ^ m - 1) + hi := by
  have hmask : (~~~UInt8.ofNat (0xff >>> m)).toNat = 2 ^ (8 - m) * (2 ^ m - 1) := by
    interval_cases m <;> rfl
  have h256 : hi < 2 ^ 8 := hhi.trans_le (Nat.pow_le_pow_right (by norm_num) (Nat.sub_le 8 m))
  rw [UInt8.toNat_or, hmask, UInt8.toNat_ofNat', Nat.mod_eq_of_lt h256, Nat.or_comm,
    ← Nat.two_pow_add_eq_or_of_lt hhi]

/-- What `decode_vint` reads off that first byte, when the high bits fit in the `7 - m` bits
left beside the size: it is not a one-byte vint, it announces `m` extra bytes, and the mask
gives the high bits back. -/
lemma decode_firstByte {m hi : Nat} (hm1 : 1 ≤ m) (hm8 : m ≤ 8) (hhi : hi < 2 ^ (7 - m)) :
    ¬(UInt8.ofNat hi ||| ~~~UInt8.ofNat (0xff >>> m)).toNat ≤ 127 ∧
      numLeadingZeros (BitVec.ofNat 64 (~~~(UInt8.ofNat hi ||| ~~~UInt8.ofNat (0xff >>> m))).toNat)
        - 56 = m ∧
      (UInt8.ofNat hi ||| ~~~UInt8.ofNat (0xff >>> m)).toNat &&& (0xff >>> m) = hi := by
  have hlt : hi < 2 ^ (8 - m) := hhi.trans_le (Nat.pow_le_pow_right (by norm_num) (by omega))
  have hp := toNat_firstByte hm1 hm8 hlt
  -- the size bits and the value bits fill the byte
  have hsum : 2 ^ (8 - m) * (2 ^ m - 1) + 2 ^ (8 - m) = 256 := by interval_cases m <;> rfl
  have h128 : 2 ^ (8 - m) ≤ 2 ^ 7 := Nat.pow_le_pow_right (by norm_num) (by omega)
  refine ⟨by rw [hp]; omega, ?_, ?_⟩
  · have hnot : (~~~(UInt8.ofNat hi ||| ~~~UInt8.ofNat (0xff >>> m))).toNat =
        2 ^ (8 - m) - 1 - hi := by
      rw [UInt8.toNat_not, hp, UInt8.size]
      omega
    rw [hnot]
    rcases Nat.lt_or_ge m 8 with h8 | h8
    · -- the highest one bit of the complement is bit 7 - m
      have hpow : 2 ^ (8 - m) = 2 ^ (7 - m) * 2 := by
        rw [← pow_succ]
        congr 1
        omega
      have hsmall : 2 ^ (8 - m) - 1 - hi < 2 ^ 64 := by omega
      have hval : (BitVec.ofNat 64 (2 ^ (8 - m) - 1 - hi)).toNat = 2 ^ (8 - m) - 1 - hi := by
        rw [BitVec.toNat_ofNat, Nat.mod_eq_of_lt hsmall]
      have hlo : 2 ^ (7 - m) ≤ (BitVec.ofNat 64 (2 ^ (8 - m) - 1 - hi)).toNat := by
        rw [hval]
        omega
      have hhi' : (BitVec.ofNat 64 (2 ^ (8 - m) - 1 - hi)).toNat < 2 ^ (7 - m + 1) := by
        rw [hval, show 7 - m + 1 = 8 - m by omega]
        omega
      rw [numLeadingZeros_of_bounds hlo hhi']
      omega
    · -- nine bytes: the first byte is all ones
      have hm : m = 8 := by omega
      subst hm
      have hzero : hi = 0 := by simpa using hhi
      subst hzero
      rfl
  · have hmask : (0xff >>> m : Nat) = 2 ^ (8 - m) - 1 := by interval_cases m <;> rfl
    rw [hp, hmask, Nat.and_two_pow_sub_one_eq_mod, Nat.mul_add_mod, Nat.mod_eq_of_lt hlt]

/-! ### Writing and reading a vint -/

/-- A vint of two bytes or more: the byte above the `m` low ones, with the size bits. -/
lemma encodeVint_succ (value : BitVec 64) {m : Nat} (hm : 1 ≤ m) :
    encodeVint value (m + 1) =
      (UInt8.ofNat (value.toNat / 256 ^ m % 256) ||| ~~~UInt8.ofNat (0xff >>> m)) ::
        BigEndian.encode m value.toNat := by
  have hsplit : BigEndian.encode (m + 1) value.toNat =
      [UInt8.ofNat (value.toNat / 256 ^ m % 256)] ++ BigEndian.encode m value.toNat := by
    rw [Nat.add_comm, BigEndian.encode_add, BigEndian.encode_one]
  rw [encodeVint, if_neg (by omega), hsplit, Nat.add_sub_cancel]
  rfl

@[simp] lemma length_encodeVint (value : BitVec 64) {size : Nat} (h : 1 ≤ size) :
    (encodeVint value size).length = size := by
  obtain ⟨m, rfl⟩ : ∃ m, size = m + 1 := ⟨size - 1, by omega⟩
  rcases Nat.eq_zero_or_pos m with rfl | hm
  · rfl
  · rw [encodeVint_succ value hm, List.length_cons, BigEndian.length_encode]

lemma readByte_append (pre post : List UInt8) (b : UInt8) :
    readByte (pre ++ b :: post) pre.length = some b := by
  have hslice := BigEndian.slice_append pre [b] post
  simp only [List.length_singleton, List.append_assoc, List.singleton_append] at hslice
  rw [readByte, hslice]
  rfl

lemma toNat_shiftIn (output : BitVec 64) (b : UInt8) :
    (shiftIn output b).toNat = (output.toNat * 256 + b.toNat) % 2 ^ 64 := by
  have hb : b.toNat < 2 ^ 8 := b.toNat_lt
  have hshift : (output <<< 8).toNat = 2 ^ 8 * (output.toNat % 2 ^ 56) := by
    rw [BitVec.toNat_shiftLeft, Nat.shiftLeft_eq]
    omega
  rw [shiftIn, BitVec.toNat_or, hshift, BitVec.toNat_ofNat,
    Nat.mod_eq_of_lt (show b.toNat < 2 ^ 64 by omega),
    ← Nat.two_pow_add_eq_or_of_lt hb]
  omega

/-- The loop of `decode_vint` reads its bytes big endian below what it starts from, modulo the
word. -/
lemma toNat_foldl_shiftIn (output : BitVec 64) (bs : List UInt8) :
    (bs.foldl shiftIn output).toNat =
      (output.toNat * 256 ^ bs.length + BigEndian.decode bs) % 2 ^ 64 := by
  induction bs generalizing output with
  | nil => simp [Nat.mod_eq_of_lt output.isLt]
  | cons b bs ih =>
    have hdecode := BigEndian.decode_append [b] bs
    rw [List.singleton_append, BigEndian.decode_singleton] at hdecode
    rw [List.foldl_cons, ih, toNat_shiftIn, hdecode, List.length_cons, pow_succ, Nat.add_mod,
      Nat.mul_mod, Nat.mod_mod, ← Nat.mul_mod, ← Nat.add_mod]
    ring_nf

/-- The value bits left in the first byte of a vint of `m + 1` bytes hold the value's bits
above its `m` low bytes. -/
lemma div_lt_of_fits {value : BitVec 64} {m : Nat} (hm8 : m ≤ 8)
    (hfit : m + 1 ≤ 8 → value.toNat < 2 ^ (7 * (m + 1))) :
    value.toNat / 256 ^ m < 2 ^ (7 - m) := by
  rw [Nat.div_lt_iff_lt_mul (by positivity)]
  rcases Nat.lt_or_ge m 8 with h8 | h8
  · have hpow : 2 ^ (7 - m) * 256 ^ m = 2 ^ (7 * (m + 1)) := by
      rw [show (256 : Nat) = 2 ^ 8 from rfl, ← pow_mul, ← pow_add]
      congr 1
      omega
    rw [hpow]
    exact hfit (by omega)
  · have hm : m = 8 := by omega
    subst hm
    exact value.isLt

/-- `decode_vint` reads back a vint of `vint_size` bytes wherever it lies, when the value ends
before `end`. -/
theorem decodeVint_encodeVint (value : BitVec 64) (pre post : List UInt8) {end_ : Int}
    (hend : pre.length + vintSize value ≤ end_) :
    decodeVint (pre ++ encodeVint value (vintSize value) ++ post) pre.length end_ =
      some (some (value, (pre.length : Int) + vintSize value)) := by
  obtain ⟨h1, h9, hfit⟩ := vintSize_fits value
  obtain ⟨m, hm⟩ : ∃ m, vintSize value = m + 1 := ⟨vintSize value - 1, by omega⟩
  rw [hm] at hend h9 hfit ⊢
  rcases Nat.eq_zero_or_pos m with rfl | hm1
  · -- one byte: the value itself, below 2 ^ 7
    have hlt : value.toNat < 2 ^ 7 := hfit (by omega)
    have hbyte : (UInt8.ofNat value.toNat).toNat = value.toNat := by
      rw [UInt8.toNat_ofNat']
      omega
    have hread := readByte_append pre post (UInt8.ofNat value.toNat)
    simp only [decodeVint, encodeVint, if_true, List.append_assoc, List.singleton_append, hread,
      hbyte, Option.bind_eq_bind, Option.bind_some]
    rw [if_pos (by omega), BitVec.ofNat_toNat, BitVec.setWidth_eq]
    rfl
  · -- more bytes: the high bits of the value in the first byte, below the size bits
    have hhi := div_lt_of_fits (by omega) hfit
    have hhi256 : value.toNat / 256 ^ m < 256 := hhi.trans_le (by
      calc 2 ^ (7 - m) ≤ 2 ^ 7 := Nat.pow_le_pow_right (by norm_num) (by omega)
        _ ≤ 256 := by norm_num)
    obtain ⟨hfirst, hextra, hmask⟩ := decode_firstByte hm1 (by omega) hhi
    rw [encodeVint_succ value hm1, Nat.mod_eq_of_lt hhi256]
    set first := UInt8.ofNat (value.toNat / 256 ^ m) ||| ~~~UInt8.ofNat (0xff >>> m)
    set rest := BigEndian.encode m value.toNat
    have hread := readByte_append pre (rest ++ post) first
    have hlen : rest.length = m := BigEndian.length_encode m _
    have hslice := BigEndian.slice_append (pre ++ [first]) rest post
    simp only [List.length_append, List.length_singleton, List.append_assoc, List.cons_append,
      List.nil_append, hlen, Nat.cast_add, Nat.cast_one] at hslice
    -- the extra bytes shift in below the high bits and give the value back
    have hvalue : rest.foldl shiftIn (BitVec.ofNat 64 (first.toNat &&& 0xff >>> m)) = value := by
      apply BitVec.eq_of_toNat_eq
      rw [toNat_foldl_shiftIn, hmask, BitVec.toNat_ofNat,
        Nat.mod_eq_of_lt (hhi256.trans (by norm_num)), hlen, BigEndian.decode_encode,
        Nat.div_add_mod', Nat.mod_eq_of_lt value.isLt]
    simp only [decodeVint, List.append_assoc, List.cons_append, hread, hfirst, hextra,
      Option.bind_eq_bind, Option.bind_some]
    rw [if_neg not_false, if_neg (by omega), hslice, Option.bind_some, hvalue, Nat.cast_add,
      Nat.cast_one, ← Int.add_assoc, Int.add_right_comm]
    rfl

/-! ### Durations -/

/-- Narrowing a widened field gives it back. -/
lemma setWidth_signExtend (x : BitVec 32) : (x.signExtend 64).setWidth 32 = x := by
  ext i hi
  simp [hi, BitVec.getLsbD_signExtend]
  omega

lemma encodeDuration_eq (d : CassDuration) :
    encodeDuration d = d.zigzagValues.flatMap fun z => encodeVint z (vintSize z) := by
  rw [encodeDuration, encodeInternal, if_neg Bool.false_ne_true, List.nil_append,
    List.zip_map_right, List.zip_eq_zipWith, List.zipWith_self, List.map_map, List.flatMap_map]
  rfl

/-- `cass_value_get_duration` when its three vints decode, the first two before the end and
the last one up to it. -/
lemma getDuration_of_decodeVint {mem : List UInt8} {value : Value} {months days nanos : BitVec 64}
    {cur cur' : Int} (hnull : value.isNull = false) (htype : value.valueType = .duration)
    (hmonths : decodeVint mem value.data (value.data + value.size) = some (some (months, cur)))
    (hcur : cur ≠ value.data + value.size)
    (hdays : decodeVint mem cur (value.data + value.size) = some (some (days, cur')))
    (hcur' : cur' ≠ value.data + value.size)
    (hnanos : decodeVint mem cur' (value.data + value.size) =
      some (some (nanos, value.data + value.size))) :
    getDuration mem value = some (.ok ((ZigZag.decode months).setWidth 32,
      (ZigZag.decode days).setWidth 32, ZigZag.decode nanos)) := by
  simp [getDuration, hnull, htype, hmonths, hcur, hdays, hcur', hnanos]

/-- A duration reads back from its encoding wherever the encoding lies in the buffer; each field
is its zig-zag value as a vint of `vint_size` bytes, the shortest vint that holds it. -/
theorem getDuration_encodeDuration (d : CassDuration) (pre post : List UInt8) (value : Value)
    (hdata : value.data = pre.length) (hsize : value.size = (encodeDuration d).length)
    (htype : value.valueType = .duration) :
    getDuration (pre ++ encodeDuration d ++ post) value = some (.ok (d.months, d.days, d.nanos)) ∧
      encodeDuration d = d.zigzagValues.flatMap (fun z => encodeVint z (vintSize z)) ∧
      ∀ z ∈ d.zigzagValues, VintFits (vintSize z) z.toNat ∧
        ∀ size, VintFits size z.toNat → vintSize z ≤ size := by
  refine ⟨?_, encodeDuration_eq d, fun z _ => ⟨vintSize_fits z, fun _ => vintSize_le_of_fits z⟩⟩
  set z0 := ZigZag.encode (d.months.signExtend 64)
  set z1 := ZigZag.encode (d.days.signExtend 64)
  set z2 := ZigZag.encode d.nanos
  set e0 := encodeVint z0 (vintSize z0)
  set e1 := encodeVint z1 (vintSize z1)
  set e2 := encodeVint z2 (vintSize z2)
  have hlayout : encodeDuration d = e0 ++ e1 ++ e2 := by
    rw [encodeDuration_eq, CassDuration.zigzagValues, List.flatMap_cons, List.flatMap_cons,
      List.flatMap_cons, List.flatMap_nil, List.append_nil, List.append_assoc]
  have hs0 := (vintSize_fits z0).1
  have hs1 := (vintSize_fits z1).1
  have hs2 := (vintSize_fits z2).1
  have hl0 : e0.length = vintSize z0 := length_encodeVint z0 hs0
  have hl1 : e1.length = vintSize z1 := length_encodeVint z1 hs1
  have hend : value.data + value.size = pre.length + vintSize z0 + vintSize z1 + vintSize z2 := by
    rw [hdata, hsize, hlayout, List.length_append, List.length_append, hl0, hl1,
      length_encodeVint z2 hs2]
    push_cast
    ring
  have hnull : value.isNull = false := by simp [Value.isNull, hsize]
  -- each vint lies after the ones before it
  have h0 := decodeVint_encodeVint z0 pre (e1 ++ e2 ++ post)
    (show (pre.length : Int) + vintSize z0 ≤ value.data + value.size by omega)
  have h1 := decodeVint_encodeVint z1 (pre ++ e0) (e2 ++ post)
    (show ((pre ++ e0).length : Int) + vintSize z1 ≤ value.data + value.size by
      rw [List.length_append, hl0]
      omega)
  have h2 := decodeVint_encodeVint z2 (pre ++ e0 ++ e1) post
    (show ((pre ++ e0 ++ e1).length : Int) + vintSize z2 ≤ value.data + value.size by
      rw [List.length_append, List.length_append, hl0, hl1]
      omega)
  rw [List.length_append, hl0] at h1
  rw [List.length_append, List.length_append, hl0, hl1] at h2
  have hlast : value.data + vintSize z0 + vintSize z1 + vintSize z2 = value.data + value.size := by
    omega
  simp only [List.append_assoc, Nat.cast_add, ← hdata] at h0 h1 h2
  rw [hlast] at h2
  rw [hlayout]
  simp only [List.append_assoc]
  rw [getDuration_of_decodeVint hnull htype h0 (by omega) h1 (by omega) h2, ZigZag.decode_encode,
    ZigZag.decode_encode, ZigZag.decode_encode, setWidth_signExtend, setWidth_signExtend]

/-- One month less a day and a millisecond, as a value of its own. -/
theorem getDuration_encodeDuration_monthLessADay :
    getDuration (encodeDuration ⟨1, -1, 1000000⟩)
        ⟨4, .primitive .duration, 0, 0, (encodeDuration ⟨1, -1, 1000000⟩).length⟩ =
      some (.ok (1, -1, 1000000)) := by
  have h := (getDuration_encodeDuration ⟨1, -1, 1000000⟩ [] []
    ⟨4, .primitive .duration, 0, 0, (encodeDuration ⟨1, -1, 1000000⟩).length⟩ rfl rfl rfl).1
  simpa using h

end CassandraDriver
