import CassandraDriver.Data.DoubleWord
import CassandraDriver.TokenMap.Murmur3

/-!
# Random partitioner tokens

`RandomPartitioner` tokens are 128-bit numbers kept as two `uint64_t` words. The ring's tokens
are read from their decimal text by `parse_int128`, which multiplies by ten as
`(x << 1) + (x << 3)` word by word, with the carries written out by hand, and then adds the
digit with its carry. A key's token is the MD5 digest read as a two's complement number, made
positive by `RandomPartitioner::abs`. `Token::operator<` compares the high words, then the low
ones.

Each of these is the arithmetic it stands for, modulo `2^128` (`fromString_exact`): a text of
blanks and digits is read as its value, `abs` gives the magnitude, and the tokens of texts below
`2^128` compare as the numbers they denote. The word arithmetic is the general
`DoubleWord` library's.
-/

namespace CassandraDriver

namespace RandomPartitioner

/-- `RandomPartitioner::Token` -/
structure Token where
  hi : BitVec 64
  lo : BitVec 64
  deriving DecidableEq, Repr

namespace Token

/-- The number the two words denote. -/
def toNat (t : Token) : Nat := DoubleWord.value t.hi t.lo

/-- The number read as a 128-bit two's complement value. -/
def toInt (t : Token) : Int := if t.toNat < 2 ^ 127 then t.toNat else t.toNat - 2 ^ 128

/-- `Token::operator<` -/
def lt (a b : Token) : Prop := if a.hi = b.hi then a.lo < b.lo else a.hi < b.hi

instance : DecidableRel lt := fun a b =>
  inferInstanceAs (Decidable (if a.hi = b.hi then a.lo < b.lo else a.hi < b.hi))

/-- One pass of the digit loop of `parse_int128`: `value *= 10` as `(value << 1) +
(value << 3)` on the two words with their carries, then `value += c - '0'`. -/
def timesTenPlus (t : Token) (digit : BitVec 64) : Token :=
  let hiTmp := t.hi
  let loTmp := t.lo
  let lo := loTmp <<< 1
  let hi := (loTmp >>> 63) + (hiTmp <<< 1)
  let loTmp2 := lo
  let lo := lo + (loTmp <<< 3)
  let hi := hi + ((loTmp >>> 61) + (hiTmp <<< 3) + if lo < loTmp2 then 1 else 0)
  let loTmp := lo
  let lo := lo + digit
  let hi := hi + if lo < loTmp then 1 else 0
  ⟨hi, lo⟩

end Token

/-- The loop of `parse_int128` over the digits, which stops at the first character that is not
one. -/
def digitLoop (t : Token) : List Char → Token
  | [] => t
  | c :: s =>
    if c.isDigit then digitLoop (t.timesTenPlus (BitVec.ofNat 64 (c.toNat - '0'.toNat))) s else t

/-- `parse_int128(p, n, &hi, &lo)`: the blanks skipped, then the digits read. There is no sign,
as Cassandra's tokens lie in `[0, 2^127]`. -/
def parseInt128 (s : List Char) : Token :=
  match s.dropWhile Murmur3Partitioner.isSpace with
  | [] => ⟨0, 0⟩
  | c :: rest => digitLoop ⟨0, 0⟩ (c :: rest)

/-- `RandomPartitioner::from_string` -/
def fromString (str : List Char) : Token := parseInt128 str

/-- `RandomPartitioner::abs`: a token whose top bit is set is negated, both words complemented
and one added with its carry into `hi`. -/
def abs (token : Token) : Token :=
  if token.hi &&& 0x8000000000000000 ≠ 0 then
    let hi := ~~~token.hi
    let lo := ~~~token.lo
    let oldLo := lo
    let lo := lo + 1
    -- carry to `hi` if `lo` wrapped
    let hi := if lo < oldLo then hi + 1 else hi
    ⟨hi, lo⟩
  else token

/-- The number a text of decimal digits denotes. -/
def decimalValue (digits : List Char) : Nat :=
  digits.foldl (fun v c => 10 * v + (c.toNat - '0'.toNat)) 0

/-! ### The word arithmetic is the arithmetic of the value -/

namespace Token

lemma toNat_lt (t : Token) : t.toNat < 2 ^ 128 := DoubleWord.value_lt t.hi t.lo

/-- Ten times the value plus the digit, modulo `2^128`: twice it and eight times it are the two
shifts, and their sum and the digit are added with their carries. -/
lemma toNat_timesTenPlus (t : Token) (digit : BitVec 64) :
    (t.timesTenPlus digit).toNat = (10 * t.toNat + digit.toNat) % 2 ^ 128 := by
  have htwice := DoubleWord.value_shiftLeft (k := 1) (m := 63) rfl t.hi t.lo
  have height := DoubleWord.value_shiftLeft (k := 3) (m := 61) rfl t.hi t.lo
  have hsum := DoubleWord.value_add ((t.lo >>> 63) + (t.hi <<< 1)) (t.lo <<< 1)
    ((t.lo >>> 61) + (t.hi <<< 3)) (t.lo <<< 3)
  unfold timesTenPlus toNat
  rw [DoubleWord.value_add_low, hsum, htwice, height]
  omega

lemma lt_iff_toNat_lt (a b : Token) : a.lt b ↔ a.toNat < b.toNat :=
  DoubleWord.lt_iff_value_lt a.hi a.lo b.hi b.lo

end Token

/-- The value of a digit character. -/
lemma digit_lt_ten {c : Char} (h : c.isDigit) : c.toNat - '0'.toNat < 10 := by
  simp only [Char.isDigit, Bool.and_eq_true, decide_eq_true_eq] at h
  have h9 : c.toNat ≤ '9'.toNat := h.2
  have : '9'.toNat = 57 := rfl
  have : '0'.toNat = 48 := rfl
  omega

/-- The loop folds the digits into the value, modulo `2^128` at every step as at the end. -/
lemma toNat_digitLoop {digits : List Char} (hd : ∀ c ∈ digits, c.isDigit) (t : Token) :
    (digitLoop t digits).toNat =
      digits.foldl (fun v c => 10 * v + (c.toNat - '0'.toNat)) t.toNat % 2 ^ 128 := by
  induction digits generalizing t with
  | nil =>
    rw [List.foldl_nil, Nat.mod_eq_of_lt (Token.toNat_lt t)]
    rfl
  | cons c digits ih =>
    have hc := hd c List.mem_cons_self
    have hdigit : (BitVec.ofNat 64 (c.toNat - '0'.toNat)).toNat = c.toNat - '0'.toNat := by
      rw [BitVec.toNat_ofNat]
      exact Nat.mod_eq_of_lt (by have := digit_lt_ten hc; omega)
    rw [digitLoop, if_pos hc, ih (fun c' hc' => hd c' (List.mem_cons_of_mem c hc')),
      Token.toNat_timesTenPlus, hdigit, List.foldl_cons]
    -- the fold is taken modulo `2^128` either way
    exact foldl_mod digits _ _ (Nat.mod_mod _ _)
where
  foldl_mod (digits : List Char) (a b : Nat) (h : a % 2 ^ 128 = b % 2 ^ 128) :
      digits.foldl (fun v c => 10 * v + (c.toNat - '0'.toNat)) a % 2 ^ 128 =
        digits.foldl (fun v c => 10 * v + (c.toNat - '0'.toNat)) b % 2 ^ 128 := by
    induction digits generalizing a b with
    | nil => exact h
    | cons c digits ih =>
      exact ih _ _ (by dsimp only; omega)

/-- The blanks in front are skipped, and the digits begin with no blank. -/
lemma dropWhile_isSpace_append {blanks digits : List Char}
    (hb : ∀ c ∈ blanks, Murmur3Partitioner.isSpace c) (hd : ∀ c ∈ digits, c.isDigit) :
    (blanks ++ digits).dropWhile Murmur3Partitioner.isSpace = digits := by
  induction blanks with
  | nil =>
    cases digits with
    | nil => rfl
    | cons c digits =>
      have hc := (Murmur3Partitioner.isSpace_eq_false_of_isDigit (hd c List.mem_cons_self)).1
      rw [List.nil_append, List.dropWhile_cons_of_neg (by simp [hc])]
  | cons b blanks ih =>
    rw [List.cons_append, List.dropWhile_cons_of_pos (hb b List.mem_cons_self)]
    exact ih fun c hc => hb c (List.mem_cons_of_mem b hc)

/-- A text of blanks and digits is read as the value of its digits, modulo `2^128`. -/
lemma toNat_parseInt128 {blanks digits : List Char}
    (hb : ∀ c ∈ blanks, Murmur3Partitioner.isSpace c) (hd : ∀ c ∈ digits, c.isDigit) :
    (parseInt128 (blanks ++ digits)).toNat = decimalValue digits % 2 ^ 128 := by
  unfold parseInt128
  rw [dropWhile_isSpace_append hb hd]
  cases digits with
  | nil => rfl
  | cons c digits =>
    exact toNat_digitLoop hd ⟨0, 0⟩

example : parseInt128 "  170141183460469231731687303715884105728".toList =
    ⟨0x8000000000000000, 0⟩ := by decide +kernel

/-- `abs` is the magnitude of the two's complement value. -/
lemma toNat_abs (t : Token) : (abs t).toNat = t.toInt.natAbs % 2 ^ 128 := by
  have hlt := t.toNat_lt
  unfold abs Token.toInt
  split <;> rename_i hsign
  · -- a negative token: its magnitude is `2^128` less its value
    rw [DoubleWord.and_signBit_ne_zero_iff t.hi t.lo] at hsign
    have hval : t.toNat = DoubleWord.value t.hi t.lo := rfl
    have hneg := DoubleWord.value_not_add_one t.hi t.lo
    change DoubleWord.value _ _ = _
    rw [hneg, ← hval, if_neg (by omega)]
    omega
  · rw [DoubleWord.and_signBit_ne_zero_iff t.hi t.lo] at hsign
    change t.toNat = _
    rw [if_pos (show t.toNat < 2 ^ 127 by unfold Token.toNat; omega)]
    omega

example : abs ⟨0x8000000000000000, 1⟩ = ⟨0x7FFFFFFFFFFFFFFF, 0xFFFFFFFFFFFFFFFF⟩ := by decide

/-- `parse_int128` reads a text of blanks and digits as its value modulo `2^128`, as the two
words; `abs` gives the magnitude of a token read as two's complement; and the tokens of two such
texts whose values are below `2^128` compare with `operator<` as those values do. -/
theorem fromString_exact :
    (∀ blanks digits : List Char, (∀ c ∈ blanks, Murmur3Partitioner.isSpace c) →
      (∀ c ∈ digits, c.isDigit) →
        (fromString (blanks ++ digits)).hi.toNat * 2 ^ 64 +
          (fromString (blanks ++ digits)).lo.toNat = decimalValue digits % 2 ^ 128) ∧
    (∀ t : Token, (abs t).toNat = t.toInt.natAbs % 2 ^ 128) ∧
    (∀ blanks₁ digits₁ blanks₂ digits₂ : List Char,
      (∀ c ∈ blanks₁ ++ blanks₂, Murmur3Partitioner.isSpace c) →
      (∀ c ∈ digits₁ ++ digits₂, c.isDigit) →
      decimalValue digits₁ < 2 ^ 128 → decimalValue digits₂ < 2 ^ 128 →
        ((fromString (blanks₁ ++ digits₁)).lt (fromString (blanks₂ ++ digits₂)) ↔
          decimalValue digits₁ < decimalValue digits₂)) := by
  refine ⟨fun blanks digits hb hd => toNat_parseInt128 hb hd, toNat_abs, ?_⟩
  intro blanks₁ digits₁ blanks₂ digits₂ hb hd h₁ h₂
  have hv₁ := toNat_parseInt128 (fun c hc => hb c (List.mem_append_left _ hc))
    (fun c hc => hd c (List.mem_append_left _ hc))
  have hv₂ := toNat_parseInt128 (fun c hc => hb c (List.mem_append_right _ hc))
    (fun c hc => hd c (List.mem_append_right _ hc))
  rw [Nat.mod_eq_of_lt h₁] at hv₁
  rw [Nat.mod_eq_of_lt h₂] at hv₂
  rw [fromString, fromString, Token.lt_iff_toNat_lt, hv₁, hv₂]

end RandomPartitioner

end CassandraDriver
