import CassandraDriver.Value.Getters

/-!
# UUIDs

`uuids.cpp`: the text form of a `CassUuid`, its parser, and the timestamps of time-based UUIDs.

The text of every UUID parses back to it (`cassUuidFromString_cassUuidString`). The parser is
looser than the text it writes: it skips a `'-'` before any byte and does not look at what
follows the 32 digits, so strings that are not in the canonical 8-4-4-4-12 form are accepted
too (`cassUuidFromStringN_dashAtEnd`).

`UuidGen::monotonic_timestamp` hands out a timestamp above the last one, except when the clock
is a millisecond or more behind it: `fetch_add(1)` then returns the last timestamp itself, so
two time UUIDs in a row can be equal (`UuidGen.generateTimes_clockBack`). Away from the end of
the 64-bit range the timestamps never decrease (`UuidGen.monotonicTimestamps_sorted`).
-/

namespace CassandraDriver

/-! ### Bytes -/

/-- `encode_uuid`: the low 32 bits of the time, its next 16 and its top 16, then the clock
sequence and node, each most significant byte first. -/
def encodeUuid (uuid : CassUuid) : List UInt8 :=
  BigEndian.encode 4 uuid.timeAndVersion ++ BigEndian.encode 2 (uuid.timeAndVersion / 2 ^ 32) ++
    BigEndian.encode 2 (uuid.timeAndVersion / 2 ^ 48) ++ BigEndian.encode 8 uuid.clockSeqAndNode

/-! ### Text -/

/-- `half_byte_to_hex` -/
def halfByteToHex : List UInt8 :=
  [48, 49, 50, 51, 52, 53, 54, 55, 56, 57, 97, 98, 99, 100, 101, 102]

/-- `hex_to_half_byte`: the value of a digit in either case; `-1` elsewhere is `none`. -/
def hexToHalfByte (c : UInt8) : Option Nat :=
  if 48 ≤ c ∧ c ≤ 57 then some (c.toNat - 48)
  else if 65 ≤ c ∧ c ≤ 70 then some (c.toNat - 55)
  else if 97 ≤ c ∧ c ≤ 102 then some (c.toNat - 87)
  else none

/-- The characters `cass_uuid_string` writes for byte `i`: a `'-'` before bytes 4, 6, 8 and
10, then the two digits. -/
def uuidChunk (entry : UInt8 × Nat) : List UInt8 :=
  (if entry.2 = 4 ∨ entry.2 = 6 ∨ entry.2 = 8 ∨ entry.2 = 10 then ([45] : List UInt8) else []) ++
    [halfByteToHex.getD ((entry.1 >>> 4) &&& 0x0F).toNat 0,
      halfByteToHex.getD (entry.1 &&& 0x0F).toNat 0]

/-- `cass_uuid_string(uuid, output)`: the 36 characters and the terminating `'\0'`. -/
def cassUuidString (uuid : CassUuid) : List UInt8 :=
  (encodeUuid uuid).zipIdx.flatMap uuidChunk ++ [0]

/-- The loop of `cass_uuid_from_string_n` over the 16 bytes, from position `pos` of a string
of 36 characters: a `'-'` is skipped before any byte. -/
def fromStringLoop (str : List UInt8) : Nat → Nat → Except CassError (List UInt8)
  | 0, _ => .ok []
  | i + 1, pos =>
    let pos := if pos < 36 ∧ str.getD pos 0 = 45 then pos + 1 else pos
    if pos + 2 > 36 then .error .libBadParams
    else
      match hexToHalfByte (str.getD pos 0), hexToHalfByte (str.getD (pos + 1) 0) with
      | some p0, some p1 => do
        let rest ← fromStringLoop str i (pos + 2)
        return UInt8.ofNat (p0 * 16 + p1) :: rest
      | _, _ => .error .libBadParams

/-- `cass_uuid_from_string_n(str, str_length, output)` -/
def cassUuidFromStringN (str : List UInt8) (strLength : Nat) : Except CassError CassUuid :=
  if strLength ≠ 36 then .error .libBadParams
  else decodeUuid <$> fromStringLoop str 16 0

/-- `cass_uuid_from_string(str, output)`, on a `'\0'`-terminated string. -/
def cassUuidFromString (str : List UInt8) : Except CassError CassUuid :=
  cassUuidFromStringN str (str.takeWhile (· ≠ 0)).length

/-- The canonical form: 36 characters, `'-'` at positions 8, 13, 18 and 23 and hexadecimal
digits of either case elsewhere. -/
def IsCanonicalUuid (s : List UInt8) : Prop :=
  s.length = 36 ∧ ∀ i < 36,
    if i = 8 ∨ i = 13 ∨ i = 18 ∨ i = 23 then s.getD i 0 = 45
    else (hexToHalfByte (s.getD i 0)).isSome

instance (s : List UInt8) : Decidable (IsCanonicalUuid s) :=
  inferInstanceAs (Decidable (_ ∧ _))

/-- A string with its first `'-'` moved to the end is accepted: a `'-'` is skipped before any
byte, and what follows the 32 digits is never looked at. Its UUID prints differently. -/
theorem cassUuidFromStringN_dashAtEnd :
    ¬ IsCanonicalUuid ("c3b54ca07b01-11e4-aea6-c30dd51eaa64-".toList.map (·.toNat.toUInt8)) ∧
      cassUuidFromStringN ("c3b54ca07b01-11e4-aea6-c30dd51eaa64-".toList.map (·.toNat.toUInt8))
          36 = .ok ⟨0x11e47b01c3b54ca0, 0xaea6c30dd51eaa64⟩ ∧
      cassUuidString ⟨0x11e47b01c3b54ca0, 0xaea6c30dd51eaa64⟩ =
        "c3b54ca0-7b01-11e4-aea6-c30dd51eaa64".toList.map (·.toNat.toUInt8) ++ [0] := by
  decide

/-! ### Reading back the text -/

/-- `decode_uuid` reads back what `encode_uuid` writes, for the two 64-bit fields. -/
lemma decodeUuid_encodeUuid {uuid : CassUuid} (ht : uuid.timeAndVersion < 2 ^ 64)
    (hc : uuid.clockSeqAndNode < 2 ^ 64) : decodeUuid (encodeUuid uuid) = uuid := by
  obtain ⟨time, clock⟩ := uuid
  have h1 : (encodeUuid ⟨time, clock⟩).take 4 = BigEndian.encode 4 time := by
    simp [encodeUuid, List.append_assoc, List.take_left']
  have h2 : ((encodeUuid ⟨time, clock⟩).drop 4).take 2 = BigEndian.encode 2 (time / 2 ^ 32) := by
    simp [encodeUuid, List.append_assoc, List.drop_left', List.take_left']
  have h3 : ((encodeUuid ⟨time, clock⟩).drop 6).take 2 = BigEndian.encode 2 (time / 2 ^ 48) := by
    rw [show 6 = 4 + 2 from rfl, ← List.drop_drop]
    simp [encodeUuid, List.append_assoc, List.drop_left', List.take_left']
  have h4 : ((encodeUuid ⟨time, clock⟩).drop 8).take 8 = BigEndian.encode 8 clock := by
    rw [show 8 = 4 + 2 + 2 from rfl, ← List.drop_drop, ← List.drop_drop]
    simp [encodeUuid, List.append_assoc, List.drop_left']
  have htime : time % 256 ^ 4 + time / 2 ^ 32 % 256 ^ 2 * 2 ^ 32 +
      time / 2 ^ 48 % 256 ^ 2 * 2 ^ 48 = time := by
    simp only at ht
    omega
  simp only [decodeUuid, h1, h2, h3, h4, BigEndian.decode_encode, htime,
    Nat.mod_eq_of_lt (show clock < 256 ^ 8 by simpa using hc)]

lemma hexToHalfByte_halfByteToHex : ∀ n < 16, hexToHalfByte (halfByteToHex.getD n 0) = some n := by
  decide

lemma halfByteToHex_ne : ∀ n < 16, halfByteToHex.getD n 0 ≠ 45 ∧ halfByteToHex.getD n 0 ≠ 0 := by
  decide

lemma ofNat_halves (b : UInt8) :
    UInt8.ofNat (((b >>> 4) &&& 0x0F).toNat * 16 + (b &&& 0x0F).toNat) = b := by
  apply UInt8.toNat_inj.mp
  have := b.toNat_lt
  have low : ∀ x : Nat, x &&& 15 = x % 16 := fun x => by
    simpa using Nat.and_two_pow_sub_one_eq_mod x 4
  have high : b.toNat >>> 4 = b.toNat / 16 := by
    simpa using Nat.shiftRight_eq_div_pow b.toNat 4
  simp [UInt8.toNat_ofNat, UInt8.toNat_and, UInt8.toNat_shiftRight, low, high]
  omega

lemma toNat_and_fifteen_lt (x : UInt8) : (x &&& 0x0F).toNat < 16 := by
  simp only [UInt8.toNat_and]
  exact Nat.lt_of_le_of_lt Nat.and_le_right (by decide)

lemma getD_of_drop_eq_cons {str rest : List UInt8} {pos : Nat} {c : UInt8}
    (h : str.drop pos = c :: rest) : str.getD pos 0 = c := by
  have h0 := congrArg (·[0]?) h
  simp only [List.getElem?_drop, Nat.add_zero, List.getElem?_cons_zero] at h0
  simp [List.getD_eq_getElem?_getD, h0]

lemma drop_succ_of_drop_eq_cons {str rest : List UInt8} {pos : Nat} {c : UInt8}
    (h : str.drop pos = c :: rest) : str.drop (pos + 1) = rest := by
  rw [← List.drop_drop, h, List.drop_one, List.tail_cons]

/-- Two digits of a byte at `pos`, the next byte from `pos + 2`. -/
lemma fromStringLoop_digits {str rest : List UInt8} {i pos : Nat} {b : UInt8}
    (hdrop : str.drop pos = halfByteToHex.getD ((b >>> 4) &&& 0x0F).toNat 0 ::
      halfByteToHex.getD (b &&& 0x0F).toNat 0 :: rest) (hpos : pos + 2 ≤ 36) :
    fromStringLoop str (i + 1) pos = (b :: ·) <$> fromStringLoop str i (pos + 2) := by
  have hhi := toNat_and_fifteen_lt (b >>> 4)
  have hlo := toNat_and_fifteen_lt b
  have h0 := getD_of_drop_eq_cons hdrop
  have h1 := getD_of_drop_eq_cons (drop_succ_of_drop_eq_cons hdrop)
  simp only [fromStringLoop, h0, (halfByteToHex_ne _ hhi).1, and_false, if_false,
    show ¬ pos + 2 > 36 by omega, h1, hexToHalfByte_halfByteToHex _ hhi,
    hexToHalfByte_halfByteToHex _ hlo, ofNat_halves]
  cases fromStringLoop str i (pos + 2) <;> rfl

/-- A `'-'` before a digit is skipped. -/
lemma fromStringLoop_dash {str : List UInt8} {i pos : Nat} (h0 : str.getD pos 0 = 45)
    (hpos : pos < 36) (h1 : str.getD (pos + 1) 0 ≠ 45) :
    fromStringLoop str (i + 1) pos = fromStringLoop str (i + 1) (pos + 1) := by
  simp only [fromStringLoop, h0, hpos, h1, and_true, and_false, if_true, if_false]


/-- The loop reads the bytes back from their chunks. -/
lemma fromStringLoop_flatMap (str : List UInt8) :
    ∀ (l : List (UInt8 × Nat)) (pos : Nat) (rest : List UInt8),
      str.drop pos = l.flatMap uuidChunk ++ rest → pos + (l.flatMap uuidChunk).length ≤ 36 →
      fromStringLoop str l.length pos = .ok (l.map Prod.fst)
  | [], _, _, _, _ => rfl
  | (b, i) :: l, pos, rest, hdrop, hlen => by
    rw [List.flatMap_cons, List.append_assoc] at hdrop
    rw [List.flatMap_cons, List.length_append] at hlen
    have hdigit := (halfByteToHex_ne _ (toNat_and_fifteen_lt (b >>> 4))).1
    by_cases hsep : i = 4 ∨ i = 6 ∨ i = 8 ∨ i = 10
    · -- the byte's digits follow a '-'
      have hchunk : uuidChunk (b, i) = 45 :: halfByteToHex.getD ((b >>> 4) &&& 0x0F).toNat 0 ::
          [halfByteToHex.getD (b &&& 0x0F).toNat 0] := by
        simp [uuidChunk, hsep]
      rw [hchunk] at hdrop hlen
      simp only [List.length_cons, List.length_nil] at hlen
      have hdrop1 := drop_succ_of_drop_eq_cons hdrop
      have hnext : str.drop (pos + 1 + 2) = l.flatMap uuidChunk ++ rest := by
        rw [← List.drop_drop, hdrop1]
        rfl
      rw [List.length_cons, List.map_cons,
        fromStringLoop_dash (getD_of_drop_eq_cons hdrop) (by omega)
          (by rw [getD_of_drop_eq_cons hdrop1]; exact hdigit),
        fromStringLoop_digits hdrop1 (by omega),
        fromStringLoop_flatMap str l (pos + 1 + 2) rest hnext (by omega)]
      rfl
    · -- the byte's two digits
      have hchunk : uuidChunk (b, i) = halfByteToHex.getD ((b >>> 4) &&& 0x0F).toNat 0 ::
          [halfByteToHex.getD (b &&& 0x0F).toNat 0] := by
        simp [uuidChunk, hsep]
      rw [hchunk] at hdrop hlen
      simp only [List.length_cons, List.length_nil] at hlen
      have hnext : str.drop (pos + 2) = l.flatMap uuidChunk ++ rest := by
        rw [← List.drop_drop, hdrop]
        rfl
      rw [List.length_cons, List.map_cons, fromStringLoop_digits hdrop (by omega),
        fromStringLoop_flatMap str l (pos + 2) rest hnext (by omega)]
      rfl


lemma length_encodeUuid (uuid : CassUuid) : (encodeUuid uuid).length = 16 := by
  simp [encodeUuid]

lemma length_uuidChunk (entry : UInt8 × Nat) :
    (uuidChunk entry).length =
      if entry.2 = 4 ∨ entry.2 = 6 ∨ entry.2 = 8 ∨ entry.2 = 10 then 3 else 2 := by
  unfold uuidChunk
  split_ifs <;> simp

/-- The text has 36 characters before its `'\0'`. -/
lemma length_uuidChunks (uuid : CassUuid) :
    ((encodeUuid uuid).zipIdx.flatMap uuidChunk).length = 36 := by
  have hmap : (encodeUuid uuid).zipIdx.map (fun e => (uuidChunk e).length) =
      ((encodeUuid uuid).zipIdx.map Prod.snd).map
        (fun i => if i = 4 ∨ i = 6 ∨ i = 8 ∨ i = 10 then 3 else 2) := by
    simp only [List.map_map]
    exact List.map_congr_left fun e _ => length_uuidChunk e
  rw [List.length_flatMap, hmap, List.zipIdx_map_snd, length_encodeUuid]
  decide

/-- No character of the text is a `'\0'`. -/
lemma ne_zero_of_mem_uuidChunks {uuid : CassUuid} {c : UInt8}
    (hc : c ∈ (encodeUuid uuid).zipIdx.flatMap uuidChunk) : c ≠ 0 := by
  obtain ⟨⟨b, i⟩, -, hc⟩ := List.mem_flatMap.mp hc
  have hhi := (halfByteToHex_ne _ (toNat_and_fifteen_lt (b >>> 4))).2
  have hlo := (halfByteToHex_ne _ (toNat_and_fifteen_lt b)).2
  unfold uuidChunk at hc
  split_ifs at hc <;> simp at hc <;> rcases hc with rfl | rfl | rfl <;> simp_all

/-- The text of every UUID parses back to it. -/
theorem cassUuidFromString_cassUuidString {uuid : CassUuid} (ht : uuid.timeAndVersion < 2 ^ 64)
    (hc : uuid.clockSeqAndNode < 2 ^ 64) :
    cassUuidFromString (cassUuidString uuid) = .ok uuid := by
  have htake : (cassUuidString uuid).takeWhile (· ≠ 0) =
      (encodeUuid uuid).zipIdx.flatMap uuidChunk := by
    rw [cassUuidString, List.takeWhile_append_of_pos
      (fun c hc => by simpa using ne_zero_of_mem_uuidChunks hc)]
    simp
  have hloop := fromStringLoop_flatMap (cassUuidString uuid) (encodeUuid uuid).zipIdx 0 [0]
    (by simp [cassUuidString]) (by rw [length_uuidChunks])
  rw [List.length_zipIdx, length_encodeUuid, List.zipIdx_map_fst] at hloop
  rw [cassUuidFromString, htake, length_uuidChunks]
  simp [cassUuidFromStringN, hloop, decodeUuid_encodeUuid ht hc]

/-! ### Time-based UUIDs -/

/-- `from_unix_timestamp`: milliseconds since the epoch as 100 ns intervals since the start of
the Gregorian calendar. -/
def fromUnixTimestamp (timestamp : UInt64) : UInt64 := timestamp * 10000 + 0x01B21DD213814000

/-- `to_milliseconds` -/
def toMilliseconds (timestamp : UInt64) : UInt64 := timestamp / 10000

/-- `set_version` -/
def setVersion (timestamp : UInt64) (version : UInt8) : UInt64 :=
  (timestamp &&& (0x0FFFFFFFFFFFFFFF : UInt64)) ||| (version.toUInt64 <<< (60 : UInt64))

/-- `UuidGen`: its clock sequence and node and the last timestamp it handed out. -/
structure UuidGen where
  clockSeqAndNode : UInt64
  lastTimestamp : UInt64

namespace UuidGen

/-- `monotonic_timestamp()` on the clock readings `clock` of `get_time_since_epoch_ms`, one
per round: the timestamp, the new `last_timestamp_` and the readings left; `none` when the
readings run out first. Each atomic operation sees the value the last one left, so every
compare-exchange succeeds; `fetch_add(1)` returns the value before the addition. -/
def monotonicTimestamp (last : UInt64) : List UInt64 → Option (UInt64 × UInt64 × List UInt64)
  | [] => none
  | ms :: clock =>
    let now := fromUnixTimestamp ms
    if now > last then some (now, now, clock)
    else
      let lastMs := toMilliseconds last
      if toMilliseconds now < lastMs then some (last, last + 1, clock)
      else
        let candidate := last + 1
        if toMilliseconds candidate = lastMs then some (candidate, candidate, clock)
        else monotonicTimestamp last clock

/-- The timestamps of `n` calls of `monotonic_timestamp`, as long as the clock readings
last. -/
def monotonicTimestamps (last : UInt64) : Nat → List UInt64 → List UInt64
  | 0, _ => []
  | n + 1, clock =>
    match monotonicTimestamp last clock with
    | none => []
    | some (timestamp, last, clock) => timestamp :: monotonicTimestamps last n clock

/-- `generate_time(output)`, `n` times. -/
def generateTimes (gen : UuidGen) (n : Nat) (clock : List UInt64) : List CassUuid :=
  (monotonicTimestamps gen.lastTimestamp n clock).map fun timestamp =>
    ⟨(setVersion timestamp 1).toNat, gen.clockSeqAndNode.toNat⟩

/-- The next timestamp in the same millisecond is above the last one: it does not wrap. -/
lemma lt_add_one_of_toMilliseconds_eq {last : UInt64}
    (h : toMilliseconds (last + 1) = toMilliseconds last) : last < last + 1 := by
  have hlt := last.toNat_lt
  simp only [toMilliseconds, UInt64.ext_iff, UInt64.toNat_div, UInt64.toNat_add,
    UInt64.toNat_one] at h
  rw [UInt64.lt_iff_toNat_lt, UInt64.toNat_add, UInt64.toNat_one]
  have : last.toNat + 1 < 2 ^ 64 := by
    by_contra hge
    have : last.toNat + 1 = 2 ^ 64 := by omega
    simp [this] at h
    omega
  omega

/-- What one call can do: store and return a reading of the clock or the next timestamp, both
above the last one, or return the last one and store the next. -/
lemma monotonicTimestamp_cases {last r last' : UInt64} {clock clock' : List UInt64}
    (h : monotonicTimestamp last clock = some (r, last', clock')) :
    clock' <:+ clock ∧
      ((∃ ms ∈ clock, r = fromUnixTimestamp ms ∧ last < r ∧ last' = r) ∨
        (r = last + 1 ∧ last < r ∧ last' = r) ∨ (r = last ∧ last' = last + 1)) := by
  induction clock with
  | nil => simp [monotonicTimestamp] at h
  | cons ms clock ih =>
    dsimp only [monotonicTimestamp] at h
    split_ifs at h with hnow _ hsame
    · -- the clock is ahead
      simp only [Option.some.injEq, Prod.mk.injEq] at h
      obtain ⟨rfl, rfl, rfl⟩ := h
      exact ⟨List.suffix_cons _ _, .inl ⟨ms, by simp, rfl, hnow, rfl⟩⟩
    · -- the clock is a millisecond or more behind
      simp only [Option.some.injEq, Prod.mk.injEq] at h
      obtain ⟨rfl, rfl, rfl⟩ := h
      exact ⟨List.suffix_cons _ _, .inr (.inr ⟨rfl, rfl⟩)⟩
    · -- the next timestamp, in the same millisecond
      simp only [Option.some.injEq, Prod.mk.injEq] at h
      obtain ⟨rfl, rfl, rfl⟩ := h
      exact ⟨List.suffix_cons _ _, .inr (.inl ⟨rfl, lt_add_one_of_toMilliseconds_eq hsame, rfl⟩)⟩
    · -- the next timestamp would start a new millisecond: the clock is read again
      obtain ⟨hsuffix, hcases⟩ := ih h
      refine ⟨hsuffix.trans (List.suffix_cons _ _), ?_⟩
      rcases hcases with ⟨ms', hms', hr⟩ | hr | hr
      · exact .inl ⟨ms', List.mem_cons_of_mem _ hms', hr⟩
      · exact .inr (.inl hr)
      · exact .inr (.inr hr)

/-- Away from the end of the 64-bit range, a call returns at least the last timestamp and
stores at least what it returns. -/
lemma monotonicTimestamp_le {last r last' : UInt64} {clock clock' : List UInt64} {n : Nat}
    (h : monotonicTimestamp last clock = some (r, last', clock'))
    (hclock : ∀ ms ∈ clock, (fromUnixTimestamp ms).toNat + (n + 1) < 2 ^ 64)
    (hlast : last.toNat + (n + 1) < 2 ^ 64) :
    last ≤ r ∧ r ≤ last' ∧ last'.toNat + n < 2 ^ 64 := by
  have hsucc : (last + 1).toNat = last.toNat + 1 := by
    rw [UInt64.toNat_add, UInt64.toNat_one, Nat.mod_eq_of_lt (by omega)]
  obtain ⟨-, ⟨ms, hms, rfl, hlt, rfl⟩ | ⟨rfl, hlt, rfl⟩ | ⟨rfl, rfl⟩⟩ :=
    monotonicTimestamp_cases h
  · -- a reading of the clock
    exact ⟨UInt64.le_of_lt hlt, UInt64.le_refl _, by have := hclock ms hms; omega⟩
  · -- the next timestamp
    exact ⟨UInt64.le_of_lt hlt, UInt64.le_refl _, by omega⟩
  · -- the last timestamp again
    refine ⟨UInt64.le_refl _, ?_, by omega⟩
    rw [UInt64.le_iff_toNat_le, hsucc]
    omega

/-- Away from the end of the 64-bit range, the timestamps of a run never decrease, and none is
below the last one before the run. -/
theorem monotonicTimestamps_sorted :
    ∀ (n : Nat) (last : UInt64) (clock : List UInt64),
      (∀ ms ∈ clock, (fromUnixTimestamp ms).toNat + n < 2 ^ 64) → last.toNat + n < 2 ^ 64 →
      (monotonicTimestamps last n clock).Pairwise (· ≤ ·) ∧
        ∀ r ∈ monotonicTimestamps last n clock, last ≤ r
  | 0, _, _, _, _ => by simp [monotonicTimestamps]
  | n + 1, last, clock, hclock, hlast => by
    rw [monotonicTimestamps]
    split
    · simp
    · next r last' clock' h =>
      obtain ⟨hlr, hrl, hbound⟩ := monotonicTimestamp_le h hclock hlast
      have hsuffix := (monotonicTimestamp_cases h).1
      obtain ⟨hsorted, hge⟩ := monotonicTimestamps_sorted n last' clock'
        (fun ms hms => by have := hclock ms (hsuffix.subset hms); omega) hbound
      refine ⟨List.pairwise_cons.mpr ⟨fun x hx => UInt64.le_trans hrl (hge x hx), hsorted⟩, ?_⟩
      intro x hx
      rcases List.mem_cons.mp hx with rfl | hx
      · exact hlr
      · exact UInt64.le_trans hlr (UInt64.le_trans hrl (hge x hx))

/-- The clock going back two milliseconds: the second call returns the first call's timestamp
through `fetch_add`, and the two UUIDs are equal. -/
theorem generateTimes_clockBack :
    generateTimes ⟨0x8000000000000000, 0⟩ 2 [5, 3] =
      [⟨(setVersion (fromUnixTimestamp 5) 1).toNat, 0x8000000000000000⟩,
        ⟨(setVersion (fromUnixTimestamp 5) 1).toNat, 0x8000000000000000⟩] := by
  decide

end UuidGen

end CassandraDriver
