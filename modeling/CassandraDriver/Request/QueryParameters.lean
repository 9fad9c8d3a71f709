import CassandraDriver.Data.BigEndian

/-!
# The optional query parameters of the native protocol

A QUERY or EXECUTE body ends with up to five optional parameters, each announced by a bit of
the body's flags, in a fixed order:

  `[<result_page_size>][<paging_state>][<serial_consistency>][<timestamp>][<keyspace>]`

This module says what that part of the body means: the parameters as values, the flags that
announce them, the bytes that carry them, and how a reader that trusts the flags takes them back.
Nothing here is the driver's code; `Request.Statement` is, and `Request.FrameEncoding` proves that it
writes what this module reads.
-/

namespace CassandraDriver

/-! ### Flag bits -/

/-- `CASS_QUERY_FLAG_VALUES` -/
def queryFlagValues : Nat := 0x00000001
/-- `CASS_QUERY_FLAG_SKIP_METADATA` -/
def queryFlagSkipMetadata : Nat := 0x00000002
/-- `CASS_QUERY_FLAG_PAGE_SIZE` -/
def queryFlagPageSize : Nat := 0x00000004
/-- `CASS_QUERY_FLAG_PAGING_STATE` -/
def queryFlagPagingState : Nat := 0x00000008
/-- `CASS_QUERY_FLAG_SERIAL_CONSISTENCY` -/
def queryFlagSerialConsistency : Nat := 0x00000010
/-- `CASS_QUERY_FLAG_DEFAULT_TIMESTAMP` -/
def queryFlagDefaultTimestamp : Nat := 0x00000020
/-- `CASS_QUERY_FLAG_NAMES_FOR_VALUES` -/
def queryFlagNamesForValues : Nat := 0x00000040
/-- `CASS_QUERY_FLAG_WITH_KEYSPACE` -/
def queryFlagWithKeyspace : Nat := 0x00000080

/-- The flag bits, each a single bit, by position. -/
lemma queryFlag_eq_two_pow :
    queryFlagValues = 2 ^ 0 ∧ queryFlagSkipMetadata = 2 ^ 1 ∧ queryFlagPageSize = 2 ^ 2 ∧
    queryFlagPagingState = 2 ^ 3 ∧ queryFlagSerialConsistency = 2 ^ 4 ∧
    queryFlagDefaultTimestamp = 2 ^ 5 ∧ queryFlagNamesForValues = 2 ^ 6 ∧
    queryFlagWithKeyspace = 2 ^ 7 :=
  ⟨rfl, rfl, rfl, rfl, rfl, rfl, rfl, rfl⟩

/-- Setting a flag bit under a condition, as `if (...) flags |= FLAG` does. -/
lemma testBit_ite_or (c : Prop) [Decidable c] (flags flag j : Nat) :
    (if c then flags ||| flag else flags).testBit j = (flags.testBit j || decide c && flag.testBit j) := by
  by_cases hc : c
  · simp [hc, Nat.testBit_or]
  · simp [hc]

/-! ### Protocol notations -/

/-- A `[bytes]`: an `[int]` length and as many bytes. -/
def encodeBytesValue (bs : List UInt8) : List UInt8 := BigEndian.encodeInt 4 bs.length ++ bs

/-- A `[string]`: a `[short]` length and as many bytes. -/
def encodeStringValue (bs : List UInt8) : List UInt8 := BigEndian.encode 2 bs.length ++ bs

/-- Read a `[bytes]` that is not null. -/
def readBytesValue (bs : List UInt8) : Option (List UInt8 × List UInt8) := do
  let (n, rest) ← BigEndian.readInt 4 bs
  if n < 0 then none else BigEndian.readBytes n.toNat rest

/-- Read a `[string]`. -/
def readStringValue (bs : List UInt8) : Option (List UInt8 × List UInt8) := do
  let (n, rest) ← BigEndian.readNat 2 bs
  BigEndian.readBytes n rest

lemma readBytesValue_encode {bs : List UInt8} (h : bs.length < 2 ^ 31) (rest : List UInt8) :
    readBytesValue (encodeBytesValue bs ++ rest) = some (bs, rest) := by
  have hlen : BigEndian.readInt 4 (BigEndian.encodeInt 4 bs.length ++ (bs ++ rest)) =
      some ((bs.length : Int), bs ++ rest) :=
    BigEndian.readInt_encodeInt_append (by norm_num) (by norm_num) (by norm_num; omega) _
  rw [encodeBytesValue, List.append_assoc, readBytesValue, hlen]
  simp only [Option.bind_eq_bind, Option.bind_some, Int.natCast_nonneg, not_lt.mpr,
    if_false, Int.toNat_natCast]
  exact BigEndian.readBytes_append bs rest

lemma readStringValue_encode {bs : List UInt8} (h : bs.length < 2 ^ 16) (rest : List UInt8) :
    readStringValue (encodeStringValue bs ++ rest) = some (bs, rest) := by
  have hlen : BigEndian.readNat 2 (BigEndian.encode 2 bs.length ++ (bs ++ rest)) =
      some (bs.length, bs ++ rest) :=
    BigEndian.readNat_encode_append (by norm_num; omega) _
  rw [encodeStringValue, List.append_assoc, readStringValue, hlen]
  exact BigEndian.readBytes_append bs rest

/-! ### The parameters -/

/-- The optional parameters of a query, each present or absent. -/
structure QueryParameters where
  pageSize : Option Int
  pagingState : Option (List UInt8)
  serialConsistency : Option Nat
  timestamp : Option Int
  keyspace : Option (List UInt8)

namespace QueryParameters

/-- What each parameter's encoding can carry: an `[int]`, a `[bytes]`, a `[short]`, a `[long]`
and a `[string]`. -/
structure Valid (p : QueryParameters) : Prop where
  pageSize : ∀ v ∈ p.pageSize, -2 ^ 31 ≤ v ∧ v < 2 ^ 31
  pagingState : ∀ ps ∈ p.pagingState, ps.length < 2 ^ 31
  serialConsistency : ∀ c ∈ p.serialConsistency, c < 2 ^ 16
  timestamp : ∀ t ∈ p.timestamp, -2 ^ 63 ≤ t ∧ t < 2 ^ 63
  keyspace : ∀ ks ∈ p.keyspace, ks.length < 2 ^ 16

/-- The bytes of the parameters that are present, in the protocol's order. -/
def encode (p : QueryParameters) : List UInt8 :=
  BigEndian.encodeOptional (BigEndian.encodeInt 4) p.pageSize ++
  BigEndian.encodeOptional encodeBytesValue p.pagingState ++
  BigEndian.encodeOptional (BigEndian.encode 2) p.serialConsistency ++
  BigEndian.encodeOptional (BigEndian.encodeInt 8) p.timestamp ++
  BigEndian.encodeOptional encodeStringValue p.keyspace

/-- The page size comes first. -/
lemma encode_eq (p : QueryParameters) :
    p.encode = BigEndian.encodeOptional (BigEndian.encodeInt 4) p.pageSize ++
      { p with pageSize := none }.encode := by
  simp [encode]

/-- Flags announce the parameters when each parameter's bit is set exactly when it is
present. -/
structure Announces (flags : Nat) (p : QueryParameters) : Prop where
  pageSize : flags.testBit 2 = p.pageSize.isSome
  pagingState : flags.testBit 3 = p.pagingState.isSome
  serialConsistency : flags.testBit 4 = p.serialConsistency.isSome
  timestamp : flags.testBit 5 = p.timestamp.isSome
  keyspace : flags.testBit 7 = p.keyspace.isSome

/-- Read the parameters that the flags announce. -/
def decode (flags : Nat) (bs : List UInt8) : Option (QueryParameters × List UInt8) := do
  let (pageSize, bs) ← BigEndian.readOptional (flags.testBit 2) (BigEndian.readInt 4) bs
  let (pagingState, bs) ← BigEndian.readOptional (flags.testBit 3) readBytesValue bs
  let (serialConsistency, bs) ← BigEndian.readOptional (flags.testBit 4) (BigEndian.readNat 2) bs
  let (timestamp, bs) ← BigEndian.readOptional (flags.testBit 5) (BigEndian.readInt 8) bs
  let (keyspace, bs) ← BigEndian.readOptional (flags.testBit 7) readStringValue bs
  pure (⟨pageSize, pagingState, serialConsistency, timestamp, keyspace⟩, bs)

/-- Valid parameters, announced by the flags, read back from their bytes. -/
theorem decode_encode {flags : Nat} {p : QueryParameters} (hflags : Announces flags p)
    (hp : p.Valid) (rest : List UInt8) : decode flags (p.encode ++ rest) = some (p, rest) := by
  -- each present parameter reads back through its own reader
  have h1 : ∀ v ∈ p.pageSize, ∀ rest, BigEndian.readInt 4 (BigEndian.encodeInt 4 v ++ rest) =
      some (v, rest) := fun v hv rest =>
    BigEndian.readInt_encodeInt_append (by norm_num) (by simpa using (hp.pageSize v hv).1)
      (by simpa using (hp.pageSize v hv).2) rest
  have h2 : ∀ ps ∈ p.pagingState, ∀ rest, readBytesValue (encodeBytesValue ps ++ rest) =
      some (ps, rest) := fun ps hps rest => readBytesValue_encode (hp.pagingState ps hps) rest
  have h3 : ∀ c ∈ p.serialConsistency, ∀ rest, BigEndian.readNat 2 (BigEndian.encode 2 c ++ rest) =
      some (c, rest) := fun c hc rest =>
    BigEndian.readNat_encode_append (by simpa using hp.serialConsistency c hc) rest
  have h4 : ∀ t ∈ p.timestamp, ∀ rest, BigEndian.readInt 8 (BigEndian.encodeInt 8 t ++ rest) =
      some (t, rest) := fun t ht rest =>
    BigEndian.readInt_encodeInt_append (by norm_num) (by simpa using (hp.timestamp t ht).1)
      (by simpa using (hp.timestamp t ht).2) rest
  have h5 : ∀ ks ∈ p.keyspace, ∀ rest, readStringValue (encodeStringValue ks ++ rest) =
      some (ks, rest) := fun ks hks rest => readStringValue_encode (hp.keyspace ks hks) rest
  obtain ⟨f1, f2, f3, f4, f5⟩ := hflags
  simp only [decode, encode, List.append_assoc, f1, f2, f3, f4, f5,
    BigEndian.readOptional_encodeOptional h1, BigEndian.readOptional_encodeOptional h2,
    BigEndian.readOptional_encodeOptional h3, BigEndian.readOptional_encodeOptional h4,
    BigEndian.readOptional_encodeOptional h5, Option.bind_eq_bind, Option.bind_some]
  rfl

end QueryParameters

end CassandraDriver
