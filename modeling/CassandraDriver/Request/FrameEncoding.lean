import CassandraDriver.Request.Statement

/-!
# What the statement encoders write

`encode_begin` announces optional parameters by flags and `encode_end` writes them into a
buffer of `paging_buf_size` bytes. The flags, the size and the writes are three separate chains
of conditions over the same settings.

* Every `Buffer` method, and every chain of them, appends its bytes to a buffer written up to
  its offset (`FixedBuffer.Appends`); `encodeEnd_eq` computes `encode_end` from that.
* When the page size is not 0, `encode_end` fills its buffer exactly with the encoding of
  `queryParameters`, the parameters its flags announce (`encodeEnd_of_pageSize_ne_zero`,
  `announces_queryFlags`), and a reader that trusts the flags takes them back
  (`decode_encodeEnd`).
* A page size of 0 is written by `encode_end`, which tests `page_size() >= 0`, but neither
  counted in `paging_buf_size` nor flagged by `encode_begin`, which test `page_size() > 0`: the
  first write past the buffer asserts (`encodeEnd_of_pageSize_zero`).
* Whatever succeeds returns the total size of the buffers it pushed
  (`ExecuteRequest.encode_returnsPushedSize`).
-/

namespace CassandraDriver

open FixedBuffer (Appends)

/-! ### Buffer methods append their encodings -/

namespace Buffer

lemma appends_encodeByte (value : Nat) :
    Appends .bufferOverflow (fun p => encodeByte p.1 p.2 value) [UInt8.ofNat value] :=
  FixedBuffer.appends_writeOr _ _

lemma appends_encodeUint16 (value : Nat) :
    Appends .bufferOverflow (fun p => encodeUint16 p.1 p.2 value) (BigEndian.encode 2 value) :=
  FixedBuffer.appends_writeOr _ _

lemma appends_encodeInt32 (value : Int) :
    Appends .bufferOverflow (fun p => encodeInt32 p.1 p.2 value) (BigEndian.encodeInt 4 value) :=
  FixedBuffer.appends_writeOr _ _

lemma appends_encodeInt64 (value : Int) :
    Appends .bufferOverflow (fun p => encodeInt64 p.1 p.2 value) (BigEndian.encodeInt 8 value) :=
  FixedBuffer.appends_writeOr _ _

lemma appends_copy (value : List UInt8) (size : Nat) :
    Appends .bufferOverflow (fun p => copy p.1 p.2 value size) (value.take size) :=
  FixedBuffer.appends_writeOr _ _

lemma appends_encodeBytes (value : List UInt8) (size : Int) :
    Appends .bufferOverflow (fun p => encodeBytes p.1 p.2 value size)
      (BigEndian.encodeInt 4 size ++ if size > 0 then value.take size.toNat else []) :=
  (appends_encodeInt32 size).bind ((appends_copy value size.toNat).ite (size > 0))

lemma appends_encodeString (value : List UInt8) (size : Nat) :
    Appends .bufferOverflow (fun p => encodeString p.1 p.2 value size)
      (BigEndian.encode 2 size ++ value.take size) :=
  (appends_encodeUint16 size).bind (appends_copy value size)

end Buffer

/-! ### The size conversions on sizes that fit -/

lemma toInt32_of_lt {n : Nat} (h : n < 2 ^ 31) : toInt32 n = n := by
  have hn : n < 2 ^ 32 := by omega
  rw [toInt32, Nat.mod_eq_of_lt hn, BigEndian.toInt, if_pos (by norm_num; omega)]

lemma toUint16_of_lt {n : Nat} (h : n < 2 ^ 16) : toUint16 n = n := Nat.mod_eq_of_lt h

/-! ### Lengths and pushed buffers -/

lemma bind_eq_ok {ε α β : Type} {x : Except ε α} {f : α → Except ε β} {b : β}
    (h : x >>= f = .ok b) : ∃ a, x = .ok a ∧ f a = .ok b := by
  cases x with
  | error e => cases h
  | ok a => exact ⟨a, rfl, h⟩

/-- An encoder that started from the buffers `bufs` and returned `r` pushed buffers after them,
and returned their total size as its length. -/
def ReturnsPushedSize (bufs : List FixedBuffer) (r : Int × List FixedBuffer) : Prop :=
  ∃ pushed, r.2 = bufs ++ pushed ∧ r.1 = ((pushed.map FixedBuffer.size).sum : Nat)

lemma returnsPushedSize_nil (bufs : List FixedBuffer) : ReturnsPushedSize bufs (0, bufs) :=
  ⟨[], by simp, by simp⟩

lemma returnsPushedSize_push (bufs : List FixedBuffer) (buf : FixedBuffer) :
    ReturnsPushedSize bufs (buf.size, bufs ++ [buf]) :=
  ⟨[buf], rfl, by simp⟩

/-- Two encoders in a row push both their buffers, and their lengths add up. -/
lemma ReturnsPushedSize.trans {bufs bufs₁ bufs₂ : List FixedBuffer} {l₁ l₂ l : Int}
    (h₁ : ReturnsPushedSize bufs (l₁, bufs₁)) (h₂ : ReturnsPushedSize bufs₁ (l₂, bufs₂))
    (hl : l = l₁ + l₂) : ReturnsPushedSize bufs (l, bufs₂) := by
  obtain ⟨p₁, hb₁, hl₁⟩ := h₁
  obtain ⟨p₂, hb₂, hl₂⟩ := h₂
  refine ⟨p₁ ++ p₂, ?_, ?_⟩
  · simp only at hb₁ hb₂ ⊢
    rw [hb₂, hb₁, List.append_assoc]
  · simp only at hl₁ hl₂ ⊢
    rw [hl, hl₁, hl₂, List.map_append, List.sum_append]
    push_cast
    rfl

/-- A two-byte buffer written with one `uint16_t`. -/
lemma encodeUint16_alloc (value : Nat) :
    Buffer.encodeUint16 (FixedBuffer.alloc 2) 0 value =
      .ok (FixedBuffer.ofBytes (BigEndian.encode 2 value), 2) := by
  have h := (Buffer.appends_encodeUint16 value).run_alloc 2
  rwa [BigEndian.length_encode, if_pos le_rfl, Nat.sub_self, FixedBuffer.filledTo_zero] at h

namespace Statement

variable (s : Statement) (version : Int) (callback : RequestCallback)

/-! ### `encode_end` -/

/-- The bytes the writes of `encode_end` lay down, field by field. -/
def endBytes : List UInt8 :=
  (if s.pageSize ≥ 0 then BigEndian.encodeInt 4 s.pageSize else []) ++
  (if !s.pagingState.isEmpty then
    BigEndian.encodeInt 4 (toInt32 s.pagingState.length) ++
      if toInt32 s.pagingState.length > 0 then
        s.pagingState.take (toInt32 s.pagingState.length).toNat else []
  else []) ++
  (if callback.serialConsistency ≠ 0 then BigEndian.encode 2 callback.serialConsistency else []) ++
  (if version ≥ 3 ∧ callback.timestamp ≠ int64Min then BigEndian.encodeInt 8 callback.timestamp
    else []) ++
  (if s.withKeyspace version then
    BigEndian.encode 2 (toUint16 s.keyspace.length) ++ s.keyspace.take (toUint16 s.keyspace.length)
  else [])

/-- The writes of `encode_end`, one after the other, as one writer. -/
def endWrites : FixedBuffer × Nat → Except EncodeError (FixedBuffer × Nat) :=
  fun p => (if s.pageSize ≥ 0 then Buffer.encodeInt32 p.1 p.2 s.pageSize else pure p) >>=
    (fun p => if !s.pagingState.isEmpty then
        Buffer.encodeBytes p.1 p.2 s.pagingState (toInt32 s.pagingState.length) else pure p) >>=
    (fun p => if callback.serialConsistency ≠ 0 then
        Buffer.encodeUint16 p.1 p.2 callback.serialConsistency else pure p) >>=
    (fun p => if version ≥ 3 ∧ callback.timestamp ≠ int64Min then
        Buffer.encodeInt64 p.1 p.2 callback.timestamp else pure p) >>=
    (fun p => if s.withKeyspace version then
        Buffer.encodeString p.1 p.2 s.keyspace (toUint16 s.keyspace.length) else pure p)

lemma encodeEndWrites_eq (buf : FixedBuffer) :
    s.encodeEndWrites version callback buf =
      s.endWrites version callback (buf, 0) >>= fun p => pure p.1 := by
  simp only [encodeEndWrites, endWrites, bind_assoc]

lemma appends_endWrites :
    Appends .bufferOverflow (s.endWrites version callback) (s.endBytes version callback) :=
  ((((Buffer.appends_encodeInt32 _).ite _).bind
    ((Buffer.appends_encodeBytes _ _).ite _)).bind
    ((Buffer.appends_encodeUint16 _).ite _)).bind
    ((Buffer.appends_encodeInt64 _).ite _) |>.bind
    ((Buffer.appends_encodeString _ _).ite _)

/-- `encode_end` fills its buffer with `endBytes` when they fit in `paging_buf_size` bytes,
and asserts when they do not. -/
theorem encodeEnd_eq (bufs : List FixedBuffer) :
    s.encodeEnd version callback bufs =
      if s.pagingBufSize version callback > 0 then
        if (s.endBytes version callback).length ≤ s.pagingBufSize version callback then
          .ok (s.pagingBufSize version callback, bufs ++ [FixedBuffer.filledTo
            (s.endBytes version callback)
            (s.pagingBufSize version callback - (s.endBytes version callback).length)])
        else .error .bufferOverflow
      else .ok (0, bufs) := by
  unfold encodeEnd
  by_cases hsize : s.pagingBufSize version callback > 0
  · have hrun := (s.appends_endWrites version callback).run_alloc (s.pagingBufSize version callback)
    rw [if_pos hsize, if_pos hsize]
    simp only [bind, encodeEndWrites_eq, hrun]
    split <;> rfl
  · rw [if_neg hsize, if_neg hsize]
    rfl

/-! ### `encode_begin` -/

/-- The bytes `encode_begin` writes, `<consistency><flags>[<n>]`: the flags are an `[int]` from
protocol v5 on and a byte before. -/
def beginBytes (elementCount : Nat) : List UInt8 :=
  BigEndian.encode 2 callback.consistency ++
  (if version ≥ 5 then BigEndian.encodeInt 4 (s.queryFlags version elementCount callback)
    else [UInt8.ofNat (s.queryFlags version elementCount callback)]) ++
  (if elementCount > 0 then BigEndian.encode 2 elementCount else [])

/-- The writes of `encode_begin` as one writer. -/
def beginWrites (elementCount : Nat) : FixedBuffer × Nat → Except EncodeError (FixedBuffer × Nat) :=
  fun p => Buffer.encodeUint16 p.1 p.2 callback.consistency >>=
    (fun p => if version ≥ 5 then
        Buffer.encodeInt32 p.1 p.2 (s.queryFlags version elementCount callback)
      else Buffer.encodeByte p.1 p.2 (s.queryFlags version elementCount callback)) >>=
    (fun p => if elementCount > 0 then Buffer.encodeUint16 p.1 p.2 elementCount else pure p)

lemma appends_beginWrites (elementCount : Nat) :
    Appends .bufferOverflow (s.beginWrites version callback elementCount)
      (s.beginBytes version callback elementCount) :=
  ((Buffer.appends_encodeUint16 _).bind
    (FixedBuffer.appends_ite _ (Buffer.appends_encodeInt32 _) (Buffer.appends_encodeByte _))).bind
    ((Buffer.appends_encodeUint16 _).ite _)

lemma length_beginBytes (elementCount : Nat) :
    (s.beginBytes version callback elementCount).length =
      queryParamsBufSize version elementCount := by
  unfold beginBytes queryParamsBufSize
  split_ifs <;> simp

lemma encodeBegin_eq_beginWrites (elementCount : Nat) (bufs : List FixedBuffer) :
    s.encodeBegin version elementCount callback bufs =
      s.beginWrites version callback elementCount
          (FixedBuffer.alloc (queryParamsBufSize version elementCount), 0) >>=
        fun p => pure ((queryParamsBufSize version elementCount : Int), bufs ++ [p.1]) := by
  unfold encodeBegin beginWrites
  simp only [bind_assoc]
  split_ifs
  all_goals simp only [map_eq_pure_bind, bind_assoc, pure_bind]

/-- `encode_begin` pushes one buffer, filled with `beginBytes`, and returns its size. -/
theorem encodeBegin_eq (elementCount : Nat) (bufs : List FixedBuffer) :
    s.encodeBegin version elementCount callback bufs =
      .ok (queryParamsBufSize version elementCount,
        bufs ++ [FixedBuffer.ofBytes (s.beginBytes version callback elementCount)]) := by
  have hrun := (s.appends_beginWrites version callback elementCount).run_alloc
    (queryParamsBufSize version elementCount)
  rw [length_beginBytes, if_pos le_rfl, Nat.sub_self, FixedBuffer.filledTo_zero] at hrun
  rw [encodeBegin_eq_beginWrites, hrun]
  rfl

/-! ### The parameters the flags announce -/

/-- The optional parameters `encode_begin` announces: each one whose flag it sets, with the
statement's value. -/
def queryParameters : QueryParameters where
  pageSize := if s.pageSize > 0 then some s.pageSize else none
  pagingState := if !s.pagingState.isEmpty then some s.pagingState else none
  serialConsistency :=
    if callback.serialConsistency ≠ 0 then some callback.serialConsistency else none
  timestamp := if version ≥ 3 ∧ callback.timestamp ≠ int64Min then some callback.timestamp else none
  keyspace := if s.withKeyspace version then some s.keyspace else none

/-- The settings fit their fields on the wire: the page size is an `int32_t` and the timestamp
an `int64_t`, the serial consistency a `uint16_t` enumerator, and the paging state and the
keyspace are shorter than their length fields can say. -/
structure FitsWire : Prop where
  pageSize : -2 ^ 31 ≤ s.pageSize ∧ s.pageSize < 2 ^ 31
  pagingState : s.pagingState.length < 2 ^ 31
  serialConsistency : callback.serialConsistency < 2 ^ 16
  timestamp : -2 ^ 63 ≤ callback.timestamp ∧ callback.timestamp < 2 ^ 63
  keyspace : s.keyspace.length < 2 ^ 16

variable {s callback} in
lemma FitsWire.valid (h : s.FitsWire callback) : (s.queryParameters version callback).Valid where
  pageSize v hv := by
    simp only [queryParameters, Option.mem_def, Option.ite_none_right_eq_some,
      Option.some.injEq] at hv
    obtain ⟨-, rfl⟩ := hv
    exact h.pageSize
  pagingState ps hps := by
    simp only [queryParameters, Option.mem_def, Option.ite_none_right_eq_some,
      Option.some.injEq] at hps
    obtain ⟨-, rfl⟩ := hps
    exact h.pagingState
  serialConsistency c hc := by
    simp only [queryParameters, Option.mem_def, Option.ite_none_right_eq_some,
      Option.some.injEq] at hc
    obtain ⟨-, rfl⟩ := hc
    exact h.serialConsistency
  timestamp t ht := by
    simp only [queryParameters, Option.mem_def, Option.ite_none_right_eq_some,
      Option.some.injEq] at ht
    obtain ⟨-, rfl⟩ := ht
    exact h.timestamp
  keyspace ks hks := by
    simp only [queryParameters, Option.mem_def, Option.ite_none_right_eq_some,
      Option.some.injEq] at hks
    obtain ⟨-, rfl⟩ := hks
    exact h.keyspace

/-- `paging_buf_size` is the size of the announced parameters. -/
theorem length_encode_queryParameters :
    (s.queryParameters version callback).encode.length = s.pagingBufSize version callback := by
  simp only [queryParameters, QueryParameters.encode, BigEndian.encodeOptional_ite,
    List.length_append, pagingBufSize, encodeBytesValue, encodeStringValue]
  split_ifs <;> simp

/-- The flags `encode_begin` writes announce exactly the parameters of `queryParameters`. -/
theorem announces_queryFlags (elementCount : Nat) :
    QueryParameters.Announces (s.queryFlags version elementCount callback)
      (s.queryParameters version callback) := by
  obtain ⟨h0, h1, h2, h3, h4, h5, h6, h7⟩ := queryFlag_eq_two_pow
  -- the bit of `flags_` is `CASS_QUERY_FLAG_NAMES_FOR_VALUES`, bit 6, below every other
  have hflags (j : Nat) (hj : j ≠ 6) : s.flags.testBit j = false := by
    unfold flags
    split
    · rw [h6, Nat.testBit_two_pow]
      simpa using hj.symm
    · exact Nat.zero_testBit j
  constructor <;>
  · simp only [queryFlags, queryParameters, testBit_ite_or, hflags 2 (by decide),
      hflags 3 (by decide), hflags 4 (by decide), hflags 5 (by decide), hflags 7 (by decide), h0,
      h1, h2, h3, h4, h5, h7, Nat.testBit_two_pow]
    split_ifs <;> simp_all

/-! ### What `encode_end` writes -/

/-- A non-empty paging state whose length fits an `int32_t` is written as a `[bytes]`. -/
lemma pagingState_bytes {ps : List UInt8} (hne : ps ≠ []) (h : ps.length < 2 ^ 31) :
    (BigEndian.encodeInt 4 (toInt32 ps.length) ++
      if toInt32 ps.length > 0 then ps.take (toInt32 ps.length).toNat else []) =
      encodeBytesValue ps := by
  have hpos : 0 < ps.length := List.length_pos_of_ne_nil hne
  rw [toInt32_of_lt h, if_pos (by omega), Int.toNat_natCast, List.take_length]
  rfl

/-- A keyspace whose length fits an `uint16_t` is written as a `[string]`. -/
lemma keyspace_string {ks : List UInt8} (h : ks.length < 2 ^ 16) :
    BigEndian.encode 2 (toUint16 ks.length) ++ ks.take (toUint16 ks.length) =
      encodeStringValue ks := by
  rw [toUint16_of_lt h, List.take_length]
  rfl

variable {s callback}

/-- After the page size, `encode_end` writes the other announced parameters. -/
lemma endBytes_eq (hfit : s.FitsWire callback) :
    s.endBytes version callback =
      (if s.pageSize ≥ 0 then BigEndian.encodeInt 4 s.pageSize else []) ++
        { s.queryParameters version callback with pageSize := none }.encode := by
  have hstate : (if !s.pagingState.isEmpty then
      BigEndian.encodeInt 4 (toInt32 s.pagingState.length) ++
        (if toInt32 s.pagingState.length > 0 then
          s.pagingState.take (toInt32 s.pagingState.length).toNat else [])
      else []) = if !s.pagingState.isEmpty then encodeBytesValue s.pagingState else [] := by
    split
    · next hne =>
      have hne' : s.pagingState ≠ [] := by simpa using hne
      rw [pagingState_bytes hne' hfit.pagingState]
    · rfl
  have hks : (if s.withKeyspace version then
      BigEndian.encode 2 (toUint16 s.keyspace.length) ++ s.keyspace.take (toUint16 s.keyspace.length)
      else []) = if s.withKeyspace version then encodeStringValue s.keyspace else [] := by
    rw [keyspace_string hfit.keyspace]
  rw [endBytes, hstate, hks]
  simp only [queryParameters, QueryParameters.encode, BigEndian.encodeOptional_ite,
    BigEndian.encodeOptional_none, List.nil_append, List.append_assoc]

/-- With a page size other than 0, `encode_end` writes the announced parameters. -/
theorem endBytes_of_pageSize_ne_zero (hps : s.pageSize ≠ 0) (hfit : s.FitsWire callback) :
    s.endBytes version callback = (s.queryParameters version callback).encode := by
  have hencode := QueryParameters.encode_eq (s.queryParameters version callback)
  rw [endBytes_eq version hfit, hencode]
  congr 1
  by_cases hpos : s.pageSize > 0
  · simp [queryParameters, hpos, hpos.le]
  · simp [queryParameters, hpos, show ¬ s.pageSize ≥ 0 by omega]

/-- With a page size of 0, `encode_end` writes the page size ahead of the announced
parameters. -/
theorem endBytes_of_pageSize_zero (hps : s.pageSize = 0) (hfit : s.FitsWire callback) :
    s.endBytes version callback =
      BigEndian.encodeInt 4 0 ++ (s.queryParameters version callback).encode := by
  have hencode := QueryParameters.encode_eq (s.queryParameters version callback)
  rw [endBytes_eq version hfit, hencode]
  simp [queryParameters, hps]

/-- With a page size other than 0, `encode_end` pushes a buffer filled exactly with the
announced parameters, and none when there are none, and returns its size. -/
theorem encodeEnd_of_pageSize_ne_zero (hps : s.pageSize ≠ 0) (hfit : s.FitsWire callback)
    (bufs : List FixedBuffer) :
    s.encodeEnd version callback bufs =
      .ok ((s.queryParameters version callback).encode.length,
        if (s.queryParameters version callback).encode = [] then bufs
        else bufs ++ [FixedBuffer.ofBytes (s.queryParameters version callback).encode]) := by
  rw [encodeEnd_eq, endBytes_of_pageSize_ne_zero version hps hfit,
    ← length_encode_queryParameters]
  by_cases hnil : (s.queryParameters version callback).encode = []
  · rw [if_neg (by simp [hnil]), if_pos hnil, hnil]
    rfl
  · rw [if_pos (List.length_pos_of_ne_nil hnil), if_pos le_rfl, if_neg hnil, Nat.sub_self,
      FixedBuffer.filledTo_zero]

example :
    ({ Statement.ofQuery [] 0 with pageSize := 100 }).encodeEnd 4 ⟨1, 8, int64Min, false, none⟩ [] =
      .ok (6, [FixedBuffer.ofBytes [0, 0, 0, 100, 0, 8]]) := rfl

/-- With a page size of 0 and any other parameter to send, `encode_end` writes four bytes more
than it allocates, and its bounds assertion fails. -/
theorem encodeEnd_of_pageSize_zero (hps : s.pageSize = 0) (hfit : s.FitsWire callback)
    (hsize : 0 < s.pagingBufSize version callback) (bufs : List FixedBuffer) :
    s.encodeEnd version callback bufs = .error .bufferOverflow := by
  have hlen : (s.endBytes version callback).length = 4 + s.pagingBufSize version callback := by
    rw [endBytes_of_pageSize_zero version hps hfit, List.length_append,
      BigEndian.length_encodeInt, length_encode_queryParameters]
  rw [encodeEnd_eq, if_pos hsize, if_neg (by omega)]

/-- A simple statement sent with protocol v4, a page size of 0 and the serial consistency
`SERIAL` (8), and no paging state, timestamp or keyspace: `paging_buf_size` is 2, for the serial
consistency alone, and the flags announce no page size, but `encode_end` first writes the page
size, four bytes at offset 0, past the end of its buffer. -/
theorem encodeEnd_zeroPageSize_serial :
    let s : Statement := { Statement.ofQuery [] 0 with pageSize := 0 }
    let callback : RequestCallback := ⟨1, 8, int64Min, false, none⟩
    s.pagingBufSize 4 callback = 2 ∧ (s.queryFlags 4 0 callback).testBit 2 = false ∧
      s.encodeEnd 4 callback [] = .error .bufferOverflow := by
  refine ⟨rfl, rfl, rfl⟩

/-- With a page size other than 0, the bytes of `encode_end` read back, through the flags of
`encode_begin`, as the parameters those flags announce. -/
theorem decode_encodeEnd (hps : s.pageSize ≠ 0) (hfit : s.FitsWire callback)
    (elementCount : Nat) (bufs : List FixedBuffer) (rest : List UInt8) :
    ∃ bytes : List UInt8,
      s.encodeEnd version callback bufs =
        .ok (bytes.length, if bytes = [] then bufs else bufs ++ [FixedBuffer.ofBytes bytes]) ∧
      QueryParameters.decode (s.queryFlags version elementCount callback) (bytes ++ rest) =
        some (s.queryParameters version callback, rest) :=
  ⟨_, encodeEnd_of_pageSize_ne_zero version hps hfit bufs,
    QueryParameters.decode_encode (announces_queryFlags s version callback elementCount)
      (hfit.valid version) rest⟩

/-! ### Every encoder returns the size it pushed -/

variable (s callback)

lemma returnsPushedSize_encodeQueryOrId (bufs : List FixedBuffer) :
    ReturnsPushedSize bufs (s.encodeQueryOrId bufs) := by
  have h := returnsPushedSize_push bufs (FixedBuffer.ofBytes s.queryOrId)
  rwa [FixedBuffer.size_ofBytes] at h

lemma returnsPushedSize_encodeBegin (elementCount : Nat) (bufs : List FixedBuffer) :
    ReturnsPushedSize bufs (queryParamsBufSize version elementCount,
      bufs ++ [FixedBuffer.ofBytes (s.beginBytes version callback elementCount)]) := by
  have h := returnsPushedSize_push bufs
    (FixedBuffer.ofBytes (s.beginBytes version callback elementCount))
  rwa [FixedBuffer.size_ofBytes, length_beginBytes] at h

/-- The loop of `encode_values` pushes one buffer per value and adds its size to the length. -/
theorem encodeValuesFrom_returnsPushedSize :
    ∀ {elements : List Element} {index : Nat} {length length' : Int}
      {bufs bufs' : List FixedBuffer},
      encodeValuesFrom version index elements length bufs = .ok (length', bufs') →
      ReturnsPushedSize bufs (length' - length, bufs')
  | [], index, length, length', bufs, bufs', h => by
    cases h
    simpa using returnsPushedSize_nil bufs
  | element :: rest, index, length, length', bufs, bufs', h => by
    unfold encodeValuesFrom at h
    split at h
    · -- a set value: its `[bytes]` buffer
      obtain ⟨buf, -, hrest⟩ := bind_eq_ok h
      have hpush := returnsPushedSize_push bufs (FixedBuffer.ofBytes buf)
      rw [FixedBuffer.size_ofBytes] at hpush
      exact hpush.trans (encodeValuesFrom_returnsPushedSize hrest) (by ring)
    · split at h
      · -- an unset value from protocol v4 on: the unset marker
        have hpush := returnsPushedSize_push bufs (FixedBuffer.ofBytes encodeWithLengthUnset)
        rw [FixedBuffer.size_ofBytes] at hpush
        exact hpush.trans (encodeValuesFrom_returnsPushedSize h) (by ring)
      · cases h

lemma encodeValues_returnsPushedSize {bufs : List FixedBuffer} {r : Int × List FixedBuffer}
    (h : s.encodeValues version bufs = .ok r) : ReturnsPushedSize bufs r := by
  have := encodeValuesFrom_returnsPushedSize version h
  simpa using this

lemma encodeEnd_returnsPushedSize {bufs : List FixedBuffer} {r : Int × List FixedBuffer}
    (h : s.encodeEnd version callback bufs = .ok r) : ReturnsPushedSize bufs r := by
  rw [encodeEnd_eq] at h
  split_ifs at h with hsize hfit
  · cases h
    have hpush := returnsPushedSize_push bufs (FixedBuffer.filledTo (s.endBytes version callback)
      (s.pagingBufSize version callback - (s.endBytes version callback).length))
    rwa [FixedBuffer.size_filledTo, Nat.add_sub_cancel' hfit] at hpush
  · cases h
    exact returnsPushedSize_nil bufs

lemma encodeV1_returnsPushedSize {bufs : List FixedBuffer} {r : Int × List FixedBuffer}
    (h : s.encodeV1 callback bufs = .ok r) : ReturnsPushedSize bufs r := by
  have hid := s.returnsPushedSize_encodeQueryOrId bufs
  unfold encodeV1 at h
  obtain ⟨⟨length, bufs₁⟩, hvalues, hfinish⟩ := bind_eq_ok h
  simp only [encodeUint16_alloc, bind, Except.bind, pure, Except.pure] at hfinish
  cases hfinish
  -- the values of a bound statement come after the query id and their count
  have hmid : ReturnsPushedSize bufs (length, bufs₁) := by
    split at hvalues
    · simp only [encodeUint16_alloc, bind, Except.bind] at hvalues
      obtain ⟨⟨result, bufs₂⟩, hvals, hpure⟩ := bind_eq_ok hvalues
      cases hpure
      have hcount := returnsPushedSize_push (s.encodeQueryOrId bufs).2
        (FixedBuffer.ofBytes (BigEndian.encode 2 (toUint16 s.elements.length)))
      rw [FixedBuffer.size_ofBytes, BigEndian.length_encode] at hcount
      exact (hid.trans hcount rfl).trans (s.encodeValues_returnsPushedSize 1 hvals) (by ring)
    · cases hvalues
      exact hid
  have hcons := returnsPushedSize_push bufs₁ (FixedBuffer.ofBytes (BigEndian.encode 2 callback.consistency))
  rw [FixedBuffer.size_ofBytes, BigEndian.length_encode] at hcons
  exact hmid.trans hcons rfl

end Statement

/-- Every successful `ExecuteRequest::encode` returns the total size of the buffers it
pushed. -/
theorem ExecuteRequest.encode_returnsPushedSize {s : Statement} {version : Int}
    {callback : RequestCallback} {bufs : List FixedBuffer} {r : Int × List FixedBuffer}
    (h : ExecuteRequest.encode s version callback bufs = .ok r) : ReturnsPushedSize bufs r := by
  unfold ExecuteRequest.encode at h
  split at h
  · exact s.encodeV1_returnsPushedSize callback h
  · -- `supports_result_metadata_id` is off: nothing comes between the id and the parameters
    simp only [supportsResultMetadataId, Bool.false_eq_true, if_false, pure_bind,
      Statement.encodeBegin_eq] at h
    obtain ⟨⟨begin, bufs₁⟩, hbegin, h₁⟩ := bind_eq_ok h
    obtain ⟨⟨result, bufs₂⟩, hvalues, h₂⟩ := bind_eq_ok h₁
    obtain ⟨⟨finish, bufs₃⟩, hend, hpure⟩ := bind_eq_ok h₂
    cases hbegin
    cases hpure
    have hid := s.returnsPushedSize_encodeQueryOrId bufs
    have hbegin := s.returnsPushedSize_encodeBegin version callback
      (toUint16 s.elements.length) (s.encodeQueryOrId bufs).2
    exact ((hid.trans hbegin rfl).trans (s.encodeValues_returnsPushedSize version hvalues)
      rfl).trans (s.encodeEnd_returnsPushedSize version callback hend) rfl

end CassandraDriver
