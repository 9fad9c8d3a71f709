import Mathlib.Data.BitVec

/-!
# Dates and times from Unix seconds

`cass_date_from_epoch` and `cass_time_from_epoch` split a Unix timestamp into the CQL `date`, the
number of days since the epoch with the epoch at `2^31`, and the CQL `time`, the nanoseconds since
midnight, which the documentation bounds by `0` and `86399999999999`. `cass_date_time_to_epoch`
puts the two together again.

The constants are `unsigned int` and are converted to `int64_t` before the division, so the
quotient and the remainder are those of C: rounded toward zero, the remainder with the sign of the
dividend. For an instant before the epoch that is not at midnight the day is one too late and the
time is negative (`toInt_cassTimeFromEpoch_nonneg_iff`, `toNat_cassDateFromEpoch_eq_floor_iff`).
Both conversions round the same way, so the round trip still gives the instant back
(`cassDateTimeToEpoch_from_epoch`); `cassDateTimeFromEpoch_spec` puts the three together.

`int64_t` and `uint32_t` are bit vectors of their width; a conversion between them keeps the low
bits, as it does on every platform the driver is built for.
-/

namespace CassandraDriver

/-- `NUM_SECONDS_PER_DAY` -/
def numSecondsPerDay : Nat := 24 * 60 * 60

/-- `CASS_DATE_EPOCH`, `2^31`. -/
def cassDateEpoch : Nat := 2147483648

/-- `CASS_TIME_NANOSECONDS_PER_SECOND` -/
def cassTimeNanosecondsPerSecond : Nat := 1000000000

/-- `cass_date_from_epoch(epoch_secs)`: a signed division, then the low 32 bits of the sum. -/
def cassDateFromEpoch (epochSecs : BitVec 64) : BitVec 32 :=
  (epochSecs.sdiv (BitVec.ofNat 64 numSecondsPerDay) + BitVec.ofNat 64 cassDateEpoch).setWidth 32

/-- `cass_time_from_epoch(epoch_secs)`: `%` of `int64_t`. -/
def cassTimeFromEpoch (epochSecs : BitVec 64) : BitVec 64 :=
  BitVec.ofNat 64 cassTimeNanosecondsPerSecond * epochSecs.srem (BitVec.ofNat 64 numSecondsPerDay)

/-- `cass_date_time_to_epoch(date, time)`: the days are counted in `uint64_t`, the seconds of the
time are added to them as `uint64_t`, and the sum is returned as `int64_t`. -/
def cassDateTimeToEpoch (date : BitVec 32) (time : BitVec 64) : BitVec 64 :=
  (date.setWidth 64 - BitVec.ofNat 64 cassDateEpoch) * BitVec.ofNat 64 numSecondsPerDay +
    time.sdiv (BitVec.ofNat 64 cassTimeNanosecondsPerSecond)

/-! ### C's quotient and remainder -/

/-- The quotient and remainder of C by a positive constant, against those that round down: they
agree unless the dividend is negative and not a multiple, where the quotient is one more and the
remainder one divisor less. -/
lemma tdiv_tmod_of_pos (a : Int) {b : Int} (hb : 0 < b) :
    a = b * a.tdiv b + a.tmod b ∧
      (0 ≤ a ∨ b ∣ a → a.tdiv b = a / b ∧ a.tmod b = a % b) ∧
      (¬ (0 ≤ a ∨ b ∣ a) → a.tdiv b = a / b + 1 ∧ a.tmod b = a % b - b) := by
  have hdef := Int.tmod_def a b
  have hsign : b.sign = 1 := Int.sign_eq_one_of_pos hb
  have habs : (b.natAbs : Int) = b := Int.natAbs_of_nonneg hb.le
  refine ⟨by omega, fun h => ?_, fun h => ?_⟩
  · rw [Int.tdiv_eq_ediv, Int.tmod_eq_emod, if_pos h, if_pos h]
    omega
  · rw [Int.tdiv_eq_ediv, Int.tmod_eq_emod, if_neg h, if_neg h, hsign, habs]
    omega

/-- C's remainder by a day is less than a day and has the sign of the dividend. -/
lemma tmod_bounds (a : Int) :
    -86400 < a.tmod 86400 ∧ a.tmod 86400 < 86400 ∧ (0 ≤ a → 0 ≤ a.tmod 86400) ∧
      (a ≤ 0 → a.tmod 86400 ≤ 0) := by
  refine ⟨Int.lt_tmod_of_pos a (by decide), Int.tmod_lt_of_pos a (by decide),
    fun h => Int.tmod_nonneg _ h, fun h => ?_⟩
  have hneg := Int.tmod_nonneg 86400 (Int.neg_nonneg_of_nonpos h)
  rw [Int.neg_tmod] at hneg
  omega

/-- An `int64_t` whose value is known, read as a `uint64_t`. -/
lemma toNat_eq_of_toInt_eq {x : BitVec 64} {v : Int} (h : x.toInt = v) :
    (x.toNat : Int) = v % 2 ^ 64 := by
  rw [← h, BitVec.toInt_eq_toNat_cond]
  have hlt := x.isLt
  split <;> omega

/-! ### The conversions -/

@[simp] lemma toInt_numSecondsPerDay : (BitVec.ofNat 64 numSecondsPerDay).toInt = 86400 := rfl

@[simp] lemma toInt_cassDateEpoch : (BitVec.ofNat 64 cassDateEpoch).toInt = 2 ^ 31 := rfl

@[simp] lemma toInt_cassTimeNanosecondsPerSecond :
    (BitVec.ofNat 64 cassTimeNanosecondsPerSecond).toInt = 1000000000 := rfl

/-- The time is `10^9` times C's remainder; no product overflows. -/
theorem toInt_cassTimeFromEpoch (epochSecs : BitVec 64) :
    (cassTimeFromEpoch epochSecs).toInt = 1000000000 * epochSecs.toInt.tmod 86400 := by
  have hr := tmod_bounds epochSecs.toInt
  rw [cassTimeFromEpoch, BitVec.toInt_mul, BitVec.toInt_srem, toInt_cassTimeNanosecondsPerSecond,
    toInt_numSecondsPerDay]
  exact Int.bmod_eq_of_le (by omega) (by omega)

/-- No quotient by a day overflows. -/
lemma toInt_sdiv_numSecondsPerDay (epochSecs : BitVec 64) :
    (epochSecs.sdiv (BitVec.ofNat 64 numSecondsPerDay)).toInt = epochSecs.toInt.tdiv 86400 := by
  have hq := (tdiv_tmod_of_pos epochSecs.toInt (b := 86400) (by decide)).1
  have hr := tmod_bounds epochSecs.toInt
  have hs := BitVec.toInt_lt (x := epochSecs)
  have hs' := BitVec.le_toInt (x := epochSecs)
  rw [BitVec.toInt_sdiv, toInt_numSecondsPerDay]
  exact Int.bmod_eq_of_le (by omega) (by omega)

/-- C's quotient and remainder by a day put the instant back together without overflow. -/
lemma sdiv_mul_add_srem_numSecondsPerDay (epochSecs : BitVec 64) :
    epochSecs.sdiv (BitVec.ofNat 64 numSecondsPerDay) * BitVec.ofNat 64 numSecondsPerDay +
      epochSecs.srem (BitVec.ofNat 64 numSecondsPerDay) = epochSecs := by
  have hq := (tdiv_tmod_of_pos epochSecs.toInt (b := 86400) (by decide)).1
  have hr := tmod_bounds epochSecs.toInt
  have hs := BitVec.toInt_lt (x := epochSecs)
  have hs' := BitVec.le_toInt (x := epochSecs)
  apply BitVec.eq_of_toInt_eq
  rw [BitVec.toInt_add, BitVec.toInt_mul, toInt_sdiv_numSecondsPerDay, toInt_numSecondsPerDay,
    BitVec.toInt_srem, toInt_numSecondsPerDay,
    Int.bmod_eq_of_le (n := epochSecs.toInt.tdiv 86400 * 86400) (by omega) (by omega),
    Int.bmod_eq_of_le (by omega) (by omega)]
  omega

/-- The day is the low 32 bits of C's quotient plus `2^31`. -/
theorem toNat_cassDateFromEpoch (epochSecs : BitVec 64) :
    ((cassDateFromEpoch epochSecs).toNat : Int) = (epochSecs.toInt.tdiv 86400 + 2 ^ 31) % 2 ^ 32 := by
  have hq := (tdiv_tmod_of_pos epochSecs.toInt (b := 86400) (by decide)).1
  have hr := tmod_bounds epochSecs.toInt
  have hs := BitVec.toInt_lt (x := epochSecs)
  have hs' := BitVec.le_toInt (x := epochSecs)
  -- the quotient is far from the ends of `int64_t`, so the sum does not wrap
  have hsum : (epochSecs.sdiv (BitVec.ofNat 64 numSecondsPerDay) +
      BitVec.ofNat 64 cassDateEpoch).toInt = epochSecs.toInt.tdiv 86400 + 2 ^ 31 := by
    rw [BitVec.toInt_add, toInt_sdiv_numSecondsPerDay, toInt_cassDateEpoch]
    exact Int.bmod_eq_of_le (by omega) (by omega)
  rw [cassDateFromEpoch, BitVec.toNat_setWidth, Int.natCast_mod, toNat_eq_of_toInt_eq hsum]
  omega

/-- The time stays below a day, and it is not negative exactly when the instant is not before
the epoch or is at midnight. -/
theorem toInt_cassTimeFromEpoch_nonneg_iff (epochSecs : BitVec 64) :
    (cassTimeFromEpoch epochSecs).toInt ≤ 86399999999999 ∧
      (0 ≤ (cassTimeFromEpoch epochSecs).toInt ↔
        0 ≤ epochSecs.toInt ∨ (86400 : Int) ∣ epochSecs.toInt) := by
  obtain ⟨-, hfloor, hceil⟩ := tdiv_tmod_of_pos epochSecs.toInt (b := 86400) (by decide)
  have hr := tmod_bounds epochSecs.toInt
  rw [toInt_cassTimeFromEpoch]
  refine ⟨by omega, ⟨fun h => ?_, fun h => ?_⟩⟩
  · by_contra hneg
    have := Int.emod_nonneg epochSecs.toInt (b := 86400) (by decide)
    omega
  · have := Int.emod_nonneg epochSecs.toInt (b := 86400) (by decide)
    omega

/-- Where the day fits in `uint32_t`, it is the day the documentation gives, the days since the
epoch rounded down, exactly when the instant is not before the epoch or is at midnight. -/
theorem toNat_cassDateFromEpoch_eq_floor_iff (epochSecs : BitVec 64)
    (hfits : 0 ≤ epochSecs.toInt / 86400 + 2 ^ 31 ∧ epochSecs.toInt / 86400 + 2 ^ 31 < 2 ^ 32) :
    ((cassDateFromEpoch epochSecs).toNat : Int) = epochSecs.toInt / 86400 + 2 ^ 31 ↔
      0 ≤ epochSecs.toInt ∨ (86400 : Int) ∣ epochSecs.toInt := by
  obtain ⟨-, hfloor, hceil⟩ := tdiv_tmod_of_pos epochSecs.toInt (b := 86400) (by decide)
  rw [toNat_cassDateFromEpoch]
  by_cases h : 0 ≤ epochSecs.toInt ∨ (86400 : Int) ∣ epochSecs.toInt
  · simp only [h, iff_true, (hfloor h).1]
    omega
  · simp only [h, iff_false, (hceil h).1]
    omega

/-- The round trip gives the instant back wherever its day fits in `uint32_t`: the day and the
time both round toward zero, and their errors cancel. -/
theorem cassDateTimeToEpoch_from_epoch (epochSecs : BitVec 64)
    (hfits : 0 ≤ epochSecs.toInt / 86400 + 2 ^ 31 ∧ epochSecs.toInt / 86400 + 2 ^ 31 < 2 ^ 32) :
    cassDateTimeToEpoch (cassDateFromEpoch epochSecs) (cassTimeFromEpoch epochSecs) =
      epochSecs := by
  obtain ⟨hq, hfloor, hceil⟩ := tdiv_tmod_of_pos epochSecs.toInt (b := 86400) (by decide)
  have hr := tmod_bounds epochSecs.toInt
  -- the day `C`'s quotient gives fits too, since it is at most one more than the floor
  have hday := toNat_cassDateFromEpoch epochSecs
  have htrunc : 0 ≤ epochSecs.toInt.tdiv 86400 + 2 ^ 31 ∧
      epochSecs.toInt.tdiv 86400 + 2 ^ 31 < 2 ^ 32 := by
    by_cases h : 0 ≤ epochSecs.toInt ∨ (86400 : Int) ∣ epochSecs.toInt
    · rw [(hfloor h).1]; exact hfits
    · rw [(hceil h).1]; omega
  -- the days, counted again in `uint64_t`, are C's quotient
  have hdays : (cassDateFromEpoch epochSecs).setWidth 64 - BitVec.ofNat 64 cassDateEpoch =
      epochSecs.sdiv (BitVec.ofNat 64 numSecondsPerDay) := by
    apply BitVec.eq_of_toNat_eq
    have hq' := toNat_eq_of_toInt_eq (toInt_sdiv_numSecondsPerDay epochSecs)
    rw [BitVec.toNat_sub, BitVec.toNat_setWidth, BitVec.toNat_ofNat]
    simp only [cassDateEpoch]
    omega
  -- the seconds of the time are C's remainder
  have hsecs : (cassTimeFromEpoch epochSecs).sdiv (BitVec.ofNat 64 cassTimeNanosecondsPerSecond) =
      epochSecs.srem (BitVec.ofNat 64 numSecondsPerDay) := by
    apply BitVec.eq_of_toInt_eq
    rw [BitVec.toInt_sdiv, toInt_cassTimeFromEpoch, toInt_cassTimeNanosecondsPerSecond,
      Int.mul_tdiv_cancel_left _ (by decide), BitVec.toInt_srem, toInt_numSecondsPerDay]
    exact Int.bmod_eq_of_le (by omega) (by omega)
  rw [cassDateTimeToEpoch, hdays, hsecs]
  exact sdiv_mul_add_srem_numSecondsPerDay epochSecs

/-- Where the day fits in `uint32_t`, the round trip gives the instant back, and the time stays
below a day; the day and the time are the documented ones, the floor day and a time that is not
negative, exactly when the instant is not before the epoch or is at midnight. -/
theorem cassDateTimeFromEpoch_spec (epochSecs : BitVec 64)
    (hfits : 0 ≤ epochSecs.toInt / 86400 + 2 ^ 31 ∧ epochSecs.toInt / 86400 + 2 ^ 31 < 2 ^ 32) :
    cassDateTimeToEpoch (cassDateFromEpoch epochSecs) (cassTimeFromEpoch epochSecs) =
        epochSecs ∧
      (cassTimeFromEpoch epochSecs).toInt ≤ 86399999999999 ∧
      (0 ≤ (cassTimeFromEpoch epochSecs).toInt ↔
        0 ≤ epochSecs.toInt ∨ (86400 : Int) ∣ epochSecs.toInt) ∧
      (((cassDateFromEpoch epochSecs).toNat : Int) = epochSecs.toInt / 86400 + 2 ^ 31 ↔
        0 ≤ epochSecs.toInt ∨ (86400 : Int) ∣ epochSecs.toInt) := by
  obtain ⟨hle, hnonneg⟩ := toInt_cassTimeFromEpoch_nonneg_iff epochSecs
  exact ⟨cassDateTimeToEpoch_from_epoch epochSecs hfits, hle, hnonneg,
    toNat_cassDateFromEpoch_eq_floor_iff epochSecs hfits⟩

/-- Where the day fits, the witness `-1`, one second before the epoch: its time is negative and
its day is not the floor day. -/
theorem cassDateTimeFromEpoch_spec_minusOne :
    (0 ≤ (-1#64).toInt / 86400 + 2 ^ 31 ∧ (-1#64).toInt / 86400 + 2 ^ 31 < 2 ^ 32) ∧
      cassDateTimeToEpoch (cassDateFromEpoch (-1#64)) (cassTimeFromEpoch (-1#64)) = -1#64 ∧
      (cassTimeFromEpoch (-1#64)).toInt ≤ 86399999999999 ∧
      (0 ≤ (cassTimeFromEpoch (-1#64)).toInt ↔ 0 ≤ (-1#64).toInt ∨ (86400 : Int) ∣ (-1#64).toInt) ∧
      (((cassDateFromEpoch (-1#64)).toNat : Int) = (-1#64).toInt / 86400 + 2 ^ 31 ↔
        0 ≤ (-1#64).toInt ∨ (86400 : Int) ∣ (-1#64).toInt) :=
  ⟨by decide, cassDateTimeFromEpoch_spec (-1#64) (by decide)⟩

/-- One second before the epoch is day `2^31`, the epoch's own day, and its time is `-10^9`
nanoseconds, below the range of `time`; the documentation's floor gives day `2^31 - 1` and time
`86399 * 10^9`. -/
theorem cassTimeFromEpoch_beforeEpoch :
    (cassDateFromEpoch (-1#64)).toNat = 2 ^ 31 ∧ (cassTimeFromEpoch (-1#64)).toInt = -1000000000 := by
  decide

end CassandraDriver
