import Mathlib.Data.BitVec

/-!
# Zig-zag encoding

Zig-zag maps a signed word to an unsigned one so that small magnitudes get small codes:
`(n << 1) ^ (n >> (w - 1))` with an arithmetic right shift, undone by
`(n >>> 1) ^ -(n & 1)` with a logical one. The sign shift is all ones or all zeros, and so is
the negated low bit, so each direction is a shift followed by a conditional complement, and the
two complements cancel.
-/

namespace ZigZag

variable {w : Nat}

/-- `encode_zig_zag` -/
def encode (n : BitVec w) : BitVec w := (n <<< 1) ^^^ n.sshiftRight (w - 1)

/-- `decode_zig_zag` -/
def decode (n : BitVec w) : BitVec w := (n >>> 1) ^^^ -(n &&& 1#w)

/-- Shifting the sign bit across the word fills it with the sign. -/
lemma sshiftRight_sub_one (n : BitVec w) :
    n.sshiftRight (w - 1) = if n.msb then BitVec.allOnes w else 0#w := by
  ext i hi
  have hlast : ∀ h : w - 1 + i < w, n[w - 1 + i] = n.msb := by
    intro h
    rw [BitVec.msb_eq_getLsbD_last, BitVec.getLsbD_eq_getElem (by omega)]
    congr 1
    omega
  split <;> simp_all [BitVec.getElem_sshiftRight]

lemma and_one (n : BitVec w) : n &&& 1#w = if n.getLsbD 0 then 1#w else 0#w := by
  ext i hi
  split <;> simp_all [BitVec.getElem_one]
  rintro h rfl
  simp_all

/-- The negated low bit is all ones or all zeros. -/
lemma neg_and_one (n : BitVec w) :
    -(n &&& 1#w) = if n.getLsbD 0 then BitVec.allOnes w else 0#w := by
  rw [and_one]
  split
  · exact BitVec.neg_one_eq_allOnes
  · exact BitVec.neg_zero w

lemma encode_eq (n : BitVec w) : encode n = if n.msb then ~~~(n <<< 1) else n <<< 1 := by
  rw [encode, sshiftRight_sub_one]
  split
  · exact BitVec.xor_allOnes
  · exact BitVec.xor_zero

lemma decode_eq (n : BitVec w) :
    decode n = if n.getLsbD 0 then ~~~(n >>> 1) else n >>> 1 := by
  rw [decode, neg_and_one]
  split
  · exact BitVec.xor_allOnes
  · exact BitVec.xor_zero

/-- Decoding undoes encoding, for every word. -/
theorem decode_encode (n : BitVec w) : decode (encode n) = n := by
  ext i hi
  -- the top bit comes back from the sign, the others from the shift
  have htop : ¬1 + i < w → n[i] = n.msb := by
    intro hlt
    rw [BitVec.msb_eq_getLsbD_last, BitVec.getLsbD_eq_getElem (by omega)]
    congr 1
    omega
  by_cases hmsb : n.msb
  · have hw : 0 < w := by omega
    by_cases hlt : 1 + i < w
    · simp [encode_eq, decode_eq, hmsb, hw, hlt]
    · simp [encode_eq, decode_eq, hmsb, hw, hlt, htop hlt]
  · by_cases hlt : 1 + i < w
    · simp [encode_eq, decode_eq, hmsb, hlt]
    · simp [encode_eq, decode_eq, hmsb, hlt, htop hlt]

end ZigZag
