import Mathlib.Data.BitVec
import Mathlib.Data.Nat.Bitwise
import Mathlib.Tactic.Ring

/-!
# Numbers of two 64-bit words

A 128-bit unsigned number kept as a high and a low 64-bit word, as C code without a 128-bit type
keeps it. Its arithmetic is done word by word: a shift left moves the top bits of the low word
into the high word, an addition to the low word detects its carry by the wrap (the sum is less
than an addend), and a negation complements both words and increments with that carry. Each
lemma says the word operation is the operation on the value, modulo `2^128`; and comparing the
high words first, then the low ones, is comparing the values.
-/

namespace DoubleWord

/-- The value of the words `hi` and `lo`. -/
def value (hi lo : BitVec 64) : Nat := hi.toNat * 2 ^ 64 + lo.toNat

lemma value_lt (hi lo : BitVec 64) : value hi lo < 2 ^ 128 := by
  have := hi.isLt
  have := lo.isLt
  unfold value
  omega

/-- Adding both words, with the carry of the low words found by their wrap. -/
lemma value_add (h₁ l₁ h₂ l₂ : BitVec 64) :
    value (h₁ + (h₂ + if l₁ + l₂ < l₁ then 1 else 0)) (l₁ + l₂) =
      (value h₁ l₁ + value h₂ l₂) % 2 ^ 128 := by
  have := h₁.isLt
  have := h₂.isLt
  have := l₁.isLt
  have := l₂.isLt
  have h1 : (1 : BitVec 64).toNat = 1 := rfl
  have h0 : (0 : BitVec 64).toNat = 0 := rfl
  unfold value
  split <;> rename_i hcarry <;>
    simp only [BitVec.lt_def, BitVec.toNat_add, h1, h0] at hcarry ⊢ <;> omega

/-- Adding a word to the low word, with its carry. -/
lemma value_add_low (hi lo d : BitVec 64) :
    value (hi + if lo + d < lo then 1 else 0) (lo + d) = (value hi lo + d.toNat) % 2 ^ 128 := by
  simpa [value] using value_add hi lo 0 d

/-- A shift left by `k`: the top `k` bits of the low word, shifted right by `m = 64 - k`, go to
the bottom of the high word. -/
lemma value_shiftLeft {k m : Nat} (hkm : k + m = 64) (hi lo : BitVec 64) :
    value ((lo >>> m) + (hi <<< k)) (lo <<< k) = value hi lo * 2 ^ k % 2 ^ 128 := by
  unfold value
  simp only [BitVec.toNat_add, BitVec.toNat_shiftLeft, BitVec.toNat_ushiftRight,
    Nat.shiftLeft_eq, Nat.shiftRight_eq_div_pow]
  have hKM : 2 ^ k * 2 ^ m = 2 ^ 64 := by rw [← Nat.pow_add, hkm]
  -- the low word is its top bits `lo / 2^m` above the rest `lo % 2^m`
  have hsplit := Nat.div_add_mod lo.toNat (2 ^ m)
  have hrest : lo.toNat % 2 ^ m * 2 ^ k < 2 ^ 64 := by
    rw [← hKM, Nat.mul_comm (2 ^ k)]
    exact Nat.mul_lt_mul_of_pos_right (Nat.mod_lt _ (Nat.two_pow_pos m)) (Nat.two_pow_pos k)
  have hlo : lo.toNat * 2 ^ k = lo.toNat / 2 ^ m * 2 ^ 64 + lo.toNat % 2 ^ m * 2 ^ k := by
    rw [← hKM]
    nth_rewrite 1 [← hsplit]
    ring
  have hval : (hi.toNat * 2 ^ 64 + lo.toNat) * 2 ^ k =
      (hi.toNat * 2 ^ k + lo.toNat / 2 ^ m) * 2 ^ 64 + lo.toNat % 2 ^ m * 2 ^ k := by
    rw [Nat.add_mul, hlo]
    ring
  rw [hval, hlo]
  -- what is left is linear in the three parts
  generalize hi.toNat * 2 ^ k = a at *
  generalize lo.toNat / 2 ^ m = q at *
  generalize lo.toNat % 2 ^ m * 2 ^ k = r at *
  omega

/-- Two's complement negation: both words complemented, then one added to the low word with its
carry. -/
lemma value_not_add_one (hi lo : BitVec 64) :
    value (if ~~~lo + 1 < ~~~lo then ~~~hi + 1 else ~~~hi) (~~~lo + 1) =
      (2 ^ 128 - value hi lo) % 2 ^ 128 := by
  have := hi.isLt
  have := lo.isLt
  have h1 : (1 : BitVec 64).toNat = 1 := rfl
  unfold value
  split <;> rename_i hcarry <;>
    simp only [BitVec.lt_def, BitVec.toNat_add, BitVec.toNat_not, h1] at hcarry ⊢ <;> omega

/-- The top bit of the high word is set exactly when the value is at least `2^127`. -/
lemma and_signBit_ne_zero_iff (hi lo : BitVec 64) :
    hi &&& 0x8000000000000000 ≠ 0 ↔ 2 ^ 127 ≤ value hi lo := by
  rw [Ne, ← BitVec.toNat_inj, BitVec.toNat_and,
    show (0x8000000000000000 : BitVec 64).toNat = 2 ^ 63 from rfl,
    show (0 : BitVec 64).toNat = 0 from rfl, Nat.and_two_pow, Nat.testBit_eq_decide_div_mod_eq]
  have := hi.isLt
  have := lo.isLt
  unfold value
  rcases Nat.mod_two_eq_zero_or_one (hi.toNat / 2 ^ 63) with h | h <;> rw [h] <;> simp <;> omega

/-- Comparing the high words, then the low ones, compares the values. -/
lemma lt_iff_value_lt (hi lo hi' lo' : BitVec 64) :
    (if hi = hi' then lo < lo' else hi < hi') ↔ value hi lo < value hi' lo' := by
  have := lo.isLt
  have := lo'.isLt
  unfold value
  split <;> rename_i h
  · subst h
    rw [BitVec.lt_def]
    omega
  · rw [← BitVec.toNat_inj] at h
    rw [BitVec.lt_def]
    omega

end DoubleWord
