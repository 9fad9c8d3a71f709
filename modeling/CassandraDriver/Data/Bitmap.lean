import Mathlib.Data.BitVec
import Mathlib.Data.List.GetD

/-!
# Bitmaps over machine words

A list of `w`-bit words read as a set of numbers: `k` is a member when bit `k % w` of word
`k / w` is set. Or-ing one bit into a word adds one number, flipping a set bit removes it, and
every other number keeps its membership. A word of the list is zero exactly when none of the `w`
numbers it stands for is a member.
-/

namespace Bitmap

variable {w : Nat}

/-- Whether `k` is in the bitmap; words past the end are empty. -/
def member (words : List (BitVec w)) (k : Nat) : Bool :=
  (words.getD (k / w) 0).getLsbD (k % w)

/-- Bit `b` of word `i` stands for `i * w + b`. -/
lemma member_mul_add (words : List (BitVec w)) {i b : Nat} (hb : b < w) :
    member words (i * w + b) = (words.getD i 0).getLsbD b := by
  have hdiv : (i * w + b) / w = i ∧ (i * w + b) % w = b :=
    (Nat.div_mod_unique (by omega)).2 ⟨by rw [Nat.mul_comm]; omega, hb⟩
  rw [member, hdiv.1, hdiv.2]

/-- The number that bit `b` of word `i` stands for is `k` exactly when `k` lies in word `i` at
bit `b`. -/
lemma eq_mul_add_iff {k i b : Nat} (hb : b < w) : k = i * w + b ↔ k / w = i ∧ k % w = b := by
  rw [Nat.div_mod_unique (by omega)]
  constructor
  · rintro rfl
    exact ⟨by rw [Nat.mul_comm]; omega, hb⟩
  · rintro ⟨h, -⟩
    rw [← h, Nat.mul_comm, Nat.add_comm]

/-- The word with bit `b` alone set. -/
lemma getLsbD_one_shiftLeft {b j : Nat} (hb : b < w) :
    (1#w <<< b).getLsbD j = decide (j = b) := by
  rw [BitVec.getLsbD_shiftLeft, BitVec.getLsbD_one, Bool.eq_iff_iff]
  simp only [Bool.and_eq_true, Bool.not_eq_true', decide_eq_true_eq, decide_eq_false_iff_not]
  omega

/-- Writing word `i` changes the members of word `i` only. -/
lemma member_set (words : List (BitVec w)) {i : Nat} (hi : i < words.length) (x : BitVec w)
    (k : Nat) :
    member (words.set i x) k = if k / w = i then x.getLsbD (k % w) else member words k := by
  unfold member
  split_ifs with hk
  · rw [hk, List.getD_eq_getElem?_getD, List.getElem?_set_self hi, Option.getD_some]
  · rw [List.getD_eq_getElem?_getD, List.getElem?_set_ne (Ne.symm hk),
      ← List.getD_eq_getElem?_getD]

/-- Or-ing bit `b` into word `i` adds `i * w + b`. -/
lemma member_or_bit (words : List (BitVec w)) {i b : Nat} (hi : i < words.length) (hb : b < w)
    (k : Nat) :
    member (words.set i (words.getD i 0 ||| 1#w <<< b)) k =
      (member words k || decide (k = i * w + b)) := by
  rw [member_set words hi]
  simp only [eq_mul_add_iff hb]
  split_ifs with hk
  · rw [BitVec.getLsbD_or, getLsbD_one_shiftLeft hb, member, hk]
    simp
  · simp [hk]

/-- Flipping bit `b` of word `i`, when it is set, removes `i * w + b`. -/
lemma member_xor_bit (words : List (BitVec w)) {i b : Nat} (hi : i < words.length) (hb : b < w)
    (hset : (words.getD i 0).getLsbD b = true) (k : Nat) :
    member (words.set i (words.getD i 0 ^^^ 1#w <<< b)) k =
      (member words k && !decide (k = i * w + b)) := by
  rw [member_set words hi]
  simp only [eq_mul_add_iff hb]
  split_ifs with hk
  · rw [BitVec.getLsbD_xor, getLsbD_one_shiftLeft hb, member, hk]
    by_cases hkb : k % w = b
    · rw [hkb, hset]
      simp
    · simp [hkb]
  · simp [hk]

/-- A word is zero exactly when none of its numbers is a member. -/
lemma getD_eq_zero_iff (words : List (BitVec w)) (i : Nat) :
    words.getD i 0 = 0 ↔ ∀ b < w, member words (i * w + b) = false := by
  constructor
  · intro h b hb
    rw [member_mul_add words hb, h]
    simp
  · intro h
    apply BitVec.eq_of_getLsbD_eq
    intro b hb
    rw [← member_mul_add words hb, h b hb]
    simp

end Bitmap
