import CassandraDriver.Data.BigEndian

/-!
# Decoding response frames from a byte stream

`ResponseMessage::decode` of `response.cpp` takes the bytes of one frame as they arrive: it
counts them in `received_`, copies the header into its buffer until `header_size_` bytes are in,
then the body until `header_size_ + length_` are, and from the chunk that completes the frame it
takes only what the frame needs. `Connection::consume` feeds each chunk read from the socket to
the current message, starts a new one after each completed frame, and feeds it the rest of the
chunk.

However a stream of well-formed frames is cut into chunks, every call consumes some bytes, the
calls of a message consume exactly its frame, and each message decodes to the fields and body of
its frame (`consumeChunks_frames`). The state after a part of a frame depends only on how many of
its bytes came in (`Frame.after`), which is what makes the chunking invisible.

The body's own decoders (`Response::decode` of each opcode, with warnings and custom payloads)
are a parameter: only whether they accept the body matters here.
-/

namespace CassandraDriver

/-- `ResponseMessage`: the header fields, the byte counts, the header buffer and the body
allocated for the opcode (`none` before it is), with the bytes copied into it. -/
structure ResponseMessage where
  version : UInt8
  flags : UInt8
  stream : Int
  opcode : UInt8
  length : Int
  received : Nat
  headerSize : Nat
  isHeaderReceived : Bool
  headerBuffer : List UInt8
  isBodyReady : Bool
  isBodyError : Bool
  body : Option (List UInt8)
  deriving DecidableEq, Repr

namespace ResponseMessage

/-- `ResponseMessage()` -/
def empty : ResponseMessage := ⟨0, 0, 0, 0, 0, 0, 0, false, [], false, false, none⟩

/-- `allocate_body(opcode)`: a body for the opcodes of responses. -/
def allocateBody (opcode : UInt8) : Bool :=
  opcode ∈ [0x00, 0x02, 0x03, 0x06, 0x08, 0x0C, 0x0E, 0x10]

/-- The fields read from the header: `flags_`, then the stream as an `int16_t` from version 3
on and a `char` before, `opcode_` and `length_`. -/
def parseHeader (m : ResponseMessage) (header : List UInt8) : ResponseMessage :=
  if m.version ≥ 3 then
    { m with flags := header.getD 1 0, stream := BigEndian.decodeInt ((header.drop 2).take 2),
             opcode := header.getD 4 0, length := BigEndian.decodeInt ((header.drop 5).take 4) }
  else
    { m with flags := header.getD 1 0, stream := BigEndian.decodeInt [header.getD 2 0],
             opcode := header.getD 3 0, length := BigEndian.decodeInt ((header.drop 4).take 4) }

/-- The frame's size, `header_size_ + length_` as a `size_t`. -/
def frameSize (m : ResponseMessage) : Nat := (m.headerSize + (m.length % 2 ^ 64).toNat) % 2 ^ 64

variable (decodeBody : UInt8 → UInt8 → UInt8 → List UInt8 → Bool)

/-- The body part of `decode`, from position `pos` of the input. -/
def decodeBodyPart (m : ResponseMessage) (input : List UInt8) (pos : Nat) :
    Int × ResponseMessage :=
  let remaining := input.length - pos
  if m.received ≥ m.frameSize then
    let needed := remaining - (m.received - m.frameSize)
    let body := m.body.getD [] ++ (input.drop pos).take needed
    let m := { m with body := some body }
    if decodeBody m.version m.flags m.opcode body then
      ((pos + needed : Nat), { m with isBodyReady := true })
    else (-1, { m with isBodyError := true })
  else (input.length, { m with body := some (m.body.getD [] ++ input.drop pos) })

/-- `ResponseMessage::decode(input, size)`: the count of bytes it consumed, `-1` on an error. -/
def decode (m : ResponseMessage) (input : List UInt8) : Int × ResponseMessage :=
  let size := input.length
  let m := { m with received := m.received + size }
  if !m.isHeaderReceived then
    let m := if m.version = 0 then
        let version := input.getD 0 0 &&& 0x7F
        { m with version := version, headerSize := if version ≥ 3 then 9 else 8 }
      else m
    if m.received ≥ m.headerSize then
      let needed := size - (m.received - m.headerSize)
      let header := m.headerBuffer ++ input.take needed
      let m := { parseHeader m header with headerBuffer := header, isHeaderReceived := true }
      if !allocateBody m.opcode then (-1, m)
      else decodeBodyPart decodeBody { m with body := some [] } input needed
    else (size, { m with headerBuffer := m.headerBuffer ++ input })
  else decodeBodyPart decodeBody m input 0

/-- What a completed message tells its reader: version, flags, stream, opcode, length and
body. -/
def view (m : ResponseMessage) : UInt8 × UInt8 × Int × UInt8 × Int × Option (List UInt8) :=
  (m.version, m.flags, m.stream, m.opcode, m.length, m.body)

end ResponseMessage

/-! ### `Connection::consume` -/

/-- The reading side of a connection: the message being decoded and the completed ones, each
with the counts its `decode` calls returned (the counts are instrumentation), and whether a call
failed, after which `notify_error` closes the connection. -/
structure Consumer where
  current : ResponseMessage
  counts : List Int
  done : List (ResponseMessage × List Int)
  failed : Bool

namespace Consumer

variable (decodeBody : UInt8 → UInt8 → UInt8 → List UInt8 → Bool)

/-- A connection that has read nothing. -/
def start : Consumer := ⟨.empty, [], [], false⟩

/-- The loop of `Connection::consume` over a chunk; each round consumes at least a byte, so the
chunk's length and one more rounds are enough. -/
def consumeLoop : Nat → Consumer → List UInt8 → Consumer
  | 0, c, _ => c
  | fuel + 1, c, input =>
    if input = [] ∨ c.failed then c
    else
      let (consumed, m) := c.current.decode decodeBody input
      if consumed ≤ 0 then { c with failed := true }
      else if m.isBodyReady then
        consumeLoop fuel ⟨.empty, [], c.done ++ [(m, c.counts ++ [consumed])], false⟩
          (input.drop consumed.toNat)
      else consumeLoop fuel { c with current := m, counts := c.counts ++ [consumed] }
          (input.drop consumed.toNat)

/-- `Connection::consume(input, size)` -/
def consume (c : Consumer) (input : List UInt8) : Consumer :=
  consumeLoop decodeBody (input.length + 1) c input

/-- The chunks read from the socket, one `consume` each. -/
def consumeChunks (chunks : List (List UInt8)) : Consumer :=
  chunks.foldl (consume decodeBody) start

end Consumer

/-! ### Frames -/

/-- A response frame: the version byte (with its direction bit), flags, stream, opcode and
body. -/
structure Frame where
  version : UInt8
  flags : UInt8
  stream : Int
  opcode : UInt8
  body : List UInt8

namespace Frame

/-- The protocol version: the version byte without the direction bit. -/
def protocolVersion (f : Frame) : UInt8 := f.version &&& 0x7F

/-- The size of the stream field: two bytes from version 3 on, one before. -/
def streamWidth (f : Frame) : Nat := if f.protocolVersion ≥ 3 then 2 else 1

/-- The header's size. -/
def headerSize (f : Frame) : Nat := if f.protocolVersion ≥ 3 then 9 else 8

/-- The header's bytes. -/
def header (f : Frame) : List UInt8 :=
  [f.version, f.flags] ++ BigEndian.encodeInt f.streamWidth f.stream ++ [f.opcode] ++
    BigEndian.encodeInt 4 f.body.length

/-- The frame's bytes. -/
def bytes (f : Frame) : List UInt8 := f.header ++ f.body

/-- What the frame says: as `ResponseMessage.view` reads it. -/
def view (f : Frame) : UInt8 × UInt8 × Int × UInt8 × Int × Option (List UInt8) :=
  (f.protocolVersion, f.flags, f.stream, f.opcode, f.body.length, some f.body)

/-- A well-formed frame: a protocol version, a stream its field can hold, an opcode the driver
allocates a body for, a length an `int32_t` holds, and a body its decoder accepts. -/
structure WellFormed (decodeBody : UInt8 → UInt8 → UInt8 → List UInt8 → Bool) (f : Frame) :
    Prop where
  version_ne_zero : f.protocolVersion ≠ 0
  stream_ge : -2 ^ (8 * f.streamWidth - 1) ≤ f.stream
  stream_lt : f.stream < 2 ^ (8 * f.streamWidth - 1)
  allocateBody : ResponseMessage.allocateBody f.opcode = true
  length_lt : f.body.length < 2 ^ 31
  decodeBody : decodeBody f.protocolVersion f.flags f.opcode f.body = true

/-- The message while the header comes in, after its first `k` bytes: the version and the
header size are known and the bytes are in the header buffer. -/
def headerState (f : Frame) (k : Nat) : ResponseMessage :=
  { ResponseMessage.empty with
    version := f.protocolVersion, headerSize := f.headerSize, received := k,
    headerBuffer := f.bytes.take k }

/-- The message while the body comes in, after the first `k` bytes of the frame. -/
def bodyState (f : Frame) (k : Nat) : ResponseMessage :=
  { version := f.protocolVersion, flags := f.flags, stream := f.stream, opcode := f.opcode,
    length := f.body.length, received := k, headerSize := f.headerSize,
    isHeaderReceived := true, headerBuffer := f.header, isBodyReady := false,
    isBodyError := false, body := some (f.body.take (k - f.headerSize)) }

/-- The message after the first `k` bytes of the frame came in, `k` short of the whole
frame. -/
def after (f : Frame) (k : Nat) : ResponseMessage :=
  if k = 0 then .empty else if k < f.headerSize then f.headerState k else f.bodyState k

/-- The message once the frame is complete, having counted `received` bytes. -/
def complete (f : Frame) (received : Nat) : ResponseMessage :=
  { f.bodyState f.bytes.length with received := received, isBodyReady := true }

/-! ### The header -/

lemma length_header (f : Frame) : f.header.length = f.headerSize := by
  unfold header headerSize streamWidth
  split_ifs <;> simp

lemma length_bytes (f : Frame) : f.bytes.length = f.headerSize + f.body.length := by
  rw [bytes, List.length_append, length_header]

lemma eight_le_headerSize (f : Frame) : 8 ≤ f.headerSize := by
  unfold headerSize
  split_ifs <;> omega

lemma headerSize_le_length_bytes (f : Frame) : f.headerSize ≤ f.bytes.length := by
  rw [length_bytes]
  omega

lemma take_headerSize_bytes (f : Frame) : f.bytes.take f.headerSize = f.header := by
  rw [bytes, ← length_header, List.take_left]

lemma drop_bytes_of_le (f : Frame) {k : Nat} (hk : f.headerSize ≤ k) :
    f.bytes.drop k = f.body.drop (k - f.headerSize) := by
  conv => lhs; rw [show k = f.header.length + (k - f.headerSize) by rw [length_header]; omega]
  rw [bytes, ← List.drop_drop, List.drop_left]

lemma getD_bytes_zero (f : Frame) : f.bytes.getD 0 0 = f.version := by
  simp [bytes, header]

variable {decodeBody : UInt8 → UInt8 → UInt8 → List UInt8 → Bool} {f : Frame}

/-- The header reads back as the frame's fields. -/
lemma parseHeader_header (hwf : f.WellFormed decodeBody) (m : ResponseMessage)
    (hm : m.version = f.protocolVersion) :
    m.parseHeader f.header =
      { m with flags := f.flags, stream := f.stream, opcode := f.opcode,
               length := f.body.length } := by
  have hlen : (f.body.length : Int) < 2 ^ (8 * 4 - 1) := by
    have := hwf.length_lt
    omega
  have hlength := BigEndian.decodeInt_encodeInt (show 0 < 4 by decide) (by omega) hlen
  unfold ResponseMessage.parseHeader header
  by_cases hv : f.protocolVersion ≥ 3
  · have hw : f.streamWidth = 2 := if_pos hv
    have hstream := BigEndian.decodeInt_encodeInt (show 0 < 2 by decide)
      (hw ▸ hwf.stream_ge) (hw ▸ hwf.stream_lt)
    rw [if_pos (hm ▸ hv), hw]
    simp [hstream, List.drop_append, List.drop_eq_nil_of_le, List.take_of_length_le, hlength]
  · -- before version 3 the stream is one signed byte
    have hw : f.streamWidth = 1 := if_neg hv
    have hstream := BigEndian.decodeInt_encodeInt (show 0 < 1 by decide)
      (hw ▸ hwf.stream_ge) (hw ▸ hwf.stream_lt)
    rw [if_neg (hm ▸ hv), hw]
    obtain ⟨b, hb⟩ := List.length_eq_one_iff.mp (BigEndian.length_encodeInt 1 f.stream)
    rw [hb] at hstream ⊢
    simp [List.take_of_length_le, hlength, hstream]

/-- The frame's size as `decode` computes it from the header. -/
lemma frameSize_bodyState (hwf : f.WellFormed decodeBody) (k r : Nat) :
    { f.bodyState k with received := r }.frameSize = f.bytes.length := by
  have hlen := hwf.length_lt
  have hhs : f.headerSize ≤ 9 := by unfold headerSize; split_ifs <;> omega
  simp only [ResponseMessage.frameSize, bodyState]
  rw [length_bytes, Int.emod_eq_of_lt (by omega) (by omega), Int.toNat_natCast]
  exact Nat.mod_eq_of_lt (by omega)

/-! ### One call of `decode` -/

/-- The first byte of a frame sets the version and the header size. -/
lemma decode_empty (hwf : f.WellFormed decodeBody) {c : List UInt8}
    (hc : c.getD 0 0 = f.version) :
    ResponseMessage.empty.decode decodeBody c = (f.headerState 0).decode decodeBody c := by
  have hv := hwf.version_ne_zero
  have hv' : (f.version &&& 0x7F) ≠ 0 := hv
  unfold ResponseMessage.decode
  simp only [ResponseMessage.empty, headerState, hc, protocolVersion, headerSize, hv',
    List.take_zero, Bool.not_false, if_true, if_false, Nat.zero_add]
  rfl

/-- A part of the header that does not complete it goes into the header buffer. -/
lemma decode_headerState_lt (hwf : f.WellFormed decodeBody) {k : Nat} {c : List UInt8}
    (hpre : c <+: f.bytes.drop k) (hlt : k + c.length < f.headerSize) :
    (f.headerState k).decode decodeBody c = ((c.length : Int), f.headerState (k + c.length)) := by
  have hv := hwf.version_ne_zero
  have hbuf : f.bytes.take k ++ c = f.bytes.take (k + c.length) := by
    rw [List.take_add, ← List.prefix_iff_eq_take.mp hpre]
  have hnot : ¬ k + c.length ≥ f.headerSize := by omega
  simp [ResponseMessage.decode, headerState, ResponseMessage.empty, hv, hbuf, hnot]

/-- The bytes that complete the header are parsed, and the rest of the input goes to the
body, from the header's end. -/
lemma decode_headerState_of_le (hwf : f.WellFormed decodeBody) {k : Nat} {c : List UInt8}
    (hk : k < f.headerSize) (hle : f.headerSize ≤ k + c.length)
    (hpre : c.take (f.headerSize - k) = (f.bytes.drop k).take (f.headerSize - k)) :
    (f.headerState k).decode decodeBody c =
      ResponseMessage.decodeBodyPart decodeBody
        { f.bodyState f.headerSize with received := k + c.length } c (f.headerSize - k) := by
  have hv := hwf.version_ne_zero
  have hheader : f.bytes.take k ++ c.take (f.headerSize - k) = f.header := by
    rw [hpre, ← List.take_add, Nat.add_sub_cancel' hk.le, take_headerSize_bytes]
  have hneeded : c.length - (k + c.length - f.headerSize) = f.headerSize - k := by omega
  have hparse := parseHeader_header hwf
    { f.headerState k with received := k + c.length } rfl
  unfold ResponseMessage.decode
  simp only [headerState, ResponseMessage.empty, hv, if_false, Bool.not_false, if_true] at hparse ⊢
  simp only [hneeded, hheader, hparse, ge_iff_le, hle, if_true, hwf.allocateBody,
    Bool.not_true]
  simp [bodyState]

/-- Once the header is in, every call goes to the body. -/
lemma decode_bodyState (k : Nat) (c : List UInt8) :
    (f.bodyState k).decode decodeBody c =
      ResponseMessage.decodeBodyPart decodeBody { f.bodyState k with received := k + c.length } c 0 := by
  simp [ResponseMessage.decode, bodyState]

/-- A part of the body, from position `p` of the input, that does not complete the frame is
appended to the body. -/
lemma decodeBodyPart_lt (hwf : f.WellFormed decodeBody) {k : Nat} (hk : f.headerSize ≤ k)
    {c : List UInt8} {p : Nat} (hpre : c.drop p <+: f.bytes.drop k)
    (hlt : k + (c.length - p) < f.bytes.length) :
    ResponseMessage.decodeBodyPart decodeBody { f.bodyState k with received := k + (c.length - p) }
        c p =
      ((c.length : Int), f.bodyState (k + (c.length - p))) := by
  rw [drop_bytes_of_le f hk] at hpre
  have hbody : f.body.take (k - f.headerSize) ++ c.drop p =
      f.body.take (k + (c.length - p) - f.headerSize) := by
    rw [show k + (c.length - p) - f.headerSize = k - f.headerSize + (c.drop p).length by
        simp only [List.length_drop]; omega,
      List.take_add, ← List.prefix_iff_eq_take.mp hpre]
  have hnot : ¬ k + (c.length - p) ≥ f.bytes.length := by omega
  simp only [ResponseMessage.decodeBodyPart, frameSize_bodyState hwf]
  simp [bodyState, hnot, hbody]

/-- The bytes that complete the frame, from position `p` of the input, end the body, which is
decoded; the rest of the input is left. -/
lemma decodeBodyPart_ready (hwf : f.WellFormed decodeBody) {k : Nat} (hk : f.headerSize ≤ k)
    (hk' : k ≤ f.bytes.length) {c rest : List UInt8} {p : Nat} (hp : p ≤ c.length)
    (hc : c.drop p = f.bytes.drop k ++ rest) :
    ResponseMessage.decodeBodyPart decodeBody
        { f.bodyState k with received := f.bytes.length + rest.length } c p =
      (((p + (f.bytes.length - k) : Nat) : Int), f.complete (f.bytes.length + rest.length)) := by
  have hclen : c.length - p = f.bytes.length - k + rest.length := by
    rw [← List.length_drop, hc, List.length_append, List.length_drop]
  have hneeded : c.length - p - (f.bytes.length + rest.length - f.bytes.length) =
      f.bytes.length - k := by omega
  have hbody : f.body.take (k - f.headerSize) ++ f.bytes.drop k = f.body := by
    rw [drop_bytes_of_le f hk, List.take_append_drop]
  have htake : (c.drop p).take (f.bytes.length - k) = f.bytes.drop k := by
    rw [hc]
    exact List.take_left' (by simp)
  have hall : f.bytes.length - f.headerSize = f.body.length := by rw [length_bytes]; omega
  simp only [ResponseMessage.decodeBodyPart, frameSize_bodyState hwf]
  simp only [bodyState, ge_iff_le, Nat.le_add_right, if_true, hneeded]
  simp [htake, hbody, hwf.decodeBody, complete, bodyState, hall]

/-- Before the header is complete, the message is in its header state, the version byte
giving its version on the first call. -/
lemma decode_after_of_lt (hwf : f.WellFormed decodeBody) {k : Nat} {c : List UInt8}
    (hk : k < f.headerSize) (hfirst : c.take 1 = (f.bytes.drop k).take 1) (hc : c ≠ []) :
    (f.after k).decode decodeBody c = (f.headerState k).decode decodeBody c := by
  unfold after
  split_ifs with h0
  · subst h0
    apply decode_empty hwf
    obtain ⟨b, c', rfl⟩ := List.exists_cons_of_ne_nil hc
    have hne : f.bytes ≠ [] := by
      have := eight_le_headerSize f
      rw [← List.length_pos_iff, length_bytes]
      omega
    obtain ⟨b', bs, hbs⟩ := List.exists_cons_of_ne_nil hne
    have hb : b = b' := by simpa [hbs] using hfirst
    rw [← getD_bytes_zero, hbs, hb]
    rfl
  · rfl

/-- After the header, the state is the body state. -/
lemma after_of_le {k : Nat} (hk : f.headerSize ≤ k) : f.after k = f.bodyState k := by
  have := eight_le_headerSize f
  rw [after, if_neg (by omega), if_neg (by omega)]

/-- A part of the frame that does not complete it is consumed whole. -/
theorem decode_after_lt (hwf : f.WellFormed decodeBody) {k : Nat} {c : List UInt8}
    (hc : c ≠ []) (hpre : c <+: f.bytes.drop k) (hlt : k + c.length < f.bytes.length) :
    (f.after k).decode decodeBody c = ((c.length : Int), f.after (k + c.length)) := by
  have hlen : 0 < c.length := List.length_pos_iff.mpr hc
  by_cases hk : k < f.headerSize
  · have hfirst : c.take 1 = (f.bytes.drop k).take 1 := by
      rw [List.prefix_iff_eq_take.mp hpre, List.take_take]
      simp [Nat.min_eq_left (Nat.one_le_iff_ne_zero.mpr hlen.ne')]
    rw [decode_after_of_lt hwf hk hfirst hc]
    by_cases hend : k + c.length < f.headerSize
    · -- the header is still incomplete
      rw [decode_headerState_lt hwf hpre hend, after, if_neg (by omega), if_pos hend]
    · -- the header completes within the input, and the body goes on from its end
      have hsplit : c.take (f.headerSize - k) = (f.bytes.drop k).take (f.headerSize - k) := by
        rw [List.prefix_iff_eq_take.mp hpre, List.take_take, Nat.min_eq_left (by omega)]
      have hd : c.drop (f.headerSize - k) <+: f.bytes.drop f.headerSize := by
        have := hpre.drop (f.headerSize - k)
        rwa [List.drop_drop, Nat.add_sub_cancel' hk.le] at this
      have hrec : k + c.length = f.headerSize + (c.length - (f.headerSize - k)) := by omega
      rw [decode_headerState_of_le hwf hk (by omega) hsplit, hrec,
        decodeBodyPart_lt hwf le_rfl hd (by omega), after_of_le (by omega)]
  · -- the header is in: the input goes to the body
    rw [after_of_le (by omega), decode_bodyState,
      show k + c.length = k + (c.length - 0) by rfl,
      decodeBodyPart_lt hwf (by omega) (by simpa using hpre) (by simpa using hlt),
      after_of_le (by omega)]

/-- The part of the input that completes the frame is consumed, and the message is
complete; the rest of the input is left. -/
theorem decode_after_ready (hwf : f.WellFormed decodeBody) {k : Nat} (hk : k < f.bytes.length)
    (rest : List UInt8) :
    (f.after k).decode decodeBody (f.bytes.drop k ++ rest) =
      (((f.bytes.length - k : Nat) : Int), f.complete (f.bytes.length + rest.length)) := by
  have hrec : k + (f.bytes.drop k ++ rest).length = f.bytes.length + rest.length := by
    simp only [List.length_append, List.length_drop]
    omega
  have hhs := headerSize_le_length_bytes f
  by_cases hks : k < f.headerSize
  · have hne : f.bytes.drop k ++ rest ≠ [] := by
      simp [List.drop_eq_nil_iff]
      omega
    have hfirst : (f.bytes.drop k ++ rest).take 1 = (f.bytes.drop k).take 1 :=
      List.take_append_of_le_length (by simp; omega)
    have hsplit : (f.bytes.drop k ++ rest).take (f.headerSize - k) =
        (f.bytes.drop k).take (f.headerSize - k) :=
      List.take_append_of_le_length (by simp; omega)
    have hd : (f.bytes.drop k ++ rest).drop (f.headerSize - k) = f.bytes.drop f.headerSize ++ rest := by
      rw [List.drop_append_of_le_length (by simp; omega), List.drop_drop,
        Nat.add_sub_cancel' hks.le]
    rw [decode_after_of_lt hwf hks hfirst hne,
      decode_headerState_of_le hwf hks (by simp; omega) hsplit, hrec,
      decodeBodyPart_ready hwf le_rfl hhs (by simp; omega) hd]
    congr 2
    omega
  · rw [after_of_le (by omega), decode_bodyState, hrec,
      decodeBodyPart_ready hwf (by omega) hk.le (Nat.zero_le _) (by simp)]
    simp

lemma after_zero (f : Frame) : f.after 0 = .empty := if_pos rfl

lemma isBodyReady_after (f : Frame) (k : Nat) : (f.after k).isBodyReady = false := by
  unfold after headerState bodyState
  split_ifs <;> rfl

lemma view_complete (f : Frame) (r : Nat) : (f.complete r).view = f.view := by
  simp [complete, bodyState, ResponseMessage.view, view, length_bytes]

/-- The whole frame in one call. -/
lemma decode_bytes (hwf : f.WellFormed decodeBody) :
    ResponseMessage.empty.decode decodeBody f.bytes =
      ((f.bytes.length : Int), f.complete f.bytes.length) := by
  have hpos : 0 < f.bytes.length := by
    have := headerSize_le_length_bytes f
    have := eight_le_headerSize f
    omega
  have h := decode_after_ready hwf hpos []
  simpa [after_zero] using h

end Frame

/-! ### A stream of frames -/

namespace Consumer

variable {decodeBody : UInt8 → UInt8 → UInt8 → List UInt8 → Bool}

@[simp] lemma consumeLoop_nil (fuel : Nat) (c : Consumer) : consumeLoop decodeBody fuel c [] = c := by
  cases fuel <;> simp [consumeLoop]

/-- A round that leaves the message incomplete consumes the whole input. -/
lemma consumeLoop_of_incomplete {fuel : Nat} {c : Consumer} {input : List UInt8} {m : ResponseMessage}
    (hc : c.failed = false) (hin : input ≠ [])
    (hdec : c.current.decode decodeBody input = ((input.length : Int), m))
    (hready : m.isBodyReady = false) :
    consumeLoop decodeBody (fuel + 1) c input =
      { c with current := m, counts := c.counts ++ [(input.length : Int)] } := by
  simp [consumeLoop, hc, hin, hdec, hready]

/-- A round that completes the message starts a new one on the rest of the input. -/
lemma consumeLoop_complete {fuel n : Nat} {c : Consumer} {input : List UInt8}
    {m : ResponseMessage} (hc : c.failed = false) (hin : input ≠ []) (hn : 0 < n)
    (hdec : c.current.decode decodeBody input = ((n : Int), m)) (hready : m.isBodyReady = true) :
    consumeLoop decodeBody (fuel + 1) c input =
      consumeLoop decodeBody fuel ⟨.empty, [], c.done ++ [(m, c.counts ++ [(n : Int)])], false⟩
        (input.drop n) := by
  simp [consumeLoop, hc, hin, hdec, hready, hn.ne']

/-- A completed message of a frame, with the counts of its calls: positive, summing to the
frame's length, and the frame's fields and body. -/
def Completed (d : ResponseMessage × List Int) (f : Frame) : Prop :=
  (∀ n ∈ d.2, 0 < n) ∧ d.2.sum = f.bytes.length ∧ d.1.view = f.view

/-- The consumer has completed the frames `done`, one message each, and has read the first `k`
bytes of the first frame of `pending`. -/
def Reads (c : Consumer) (done pending : List Frame) (k : Nat) : Prop :=
  c.failed = false ∧ (∀ n ∈ c.counts, 0 < n) ∧ c.counts.sum = k ∧
    List.Forall₂ Completed c.done done ∧
    match pending with
    | [] => c.current = .empty ∧ k = 0
    | f :: _ => c.current = f.after k ∧ k < f.bytes.length

/-- A consumer that has just completed a frame reads the next one from its start. -/
lemma reads_next {c : Consumer} {done : List Frame} {f : Frame} {fs : List Frame} {k : Nat}
    {m : ResponseMessage} {n : Nat} (hc : Reads c done (f :: fs) k) (hn : 0 < n)
    (hsum : k + n = f.bytes.length) (hview : m.view = f.view) :
    Reads ⟨.empty, [], c.done ++ [(m, c.counts ++ [(n : Int)])], false⟩ (done ++ [f]) fs 0 := by
  obtain ⟨-, hpos, hcsum, hdone, -⟩ := hc
  refine ⟨rfl, by simp, rfl, List.rel_append hdone (.cons ⟨?_, ?_, hview⟩ .nil), ?_⟩
  · intro x hx
    simp only [List.mem_append, List.mem_singleton] at hx
    rcases hx with hx | rfl
    · exact hpos x hx
    · exact_mod_cast hn
  · simp only [List.sum_append, List.sum_singleton, hcsum]
    exact_mod_cast hsum
  · cases fs with
    | nil => exact ⟨rfl, rfl⟩
    | cons g _ =>
      refine ⟨(Frame.after_zero g).symm, ?_⟩
      have := g.headerSize_le_length_bytes
      have := g.eight_le_headerSize
      omega

/-- A prefix of `a ++ b` at least as long as `a` is `a` followed by a prefix of `b`. -/
lemma exists_rest_of_prefix {a b input : List UInt8} (hpre : input <+: a ++ b)
    (hlen : a.length ≤ input.length) : ∃ rest, input = a ++ rest ∧ rest <+: b := by
  have h := List.prefix_iff_eq_take.mp hpre
  rw [List.take_append, List.take_of_length_le hlen] at h
  exact ⟨b.take (input.length - a.length), h, List.take_prefix _ _⟩

/-- The loop of `consume` over any prefix of the rest of the stream: however much of the stream
it reads, it has completed the frames it passed, one message each, and reads the next one at
the right place. -/
theorem consumeLoop_reads :
    ∀ (pending done : List Frame) (c : Consumer) (k : Nat) (input : List UInt8) (fuel : Nat),
      (∀ f ∈ pending, f.WellFormed decodeBody) → Reads c done pending k →
      input <+: (pending.flatMap Frame.bytes).drop k → input.length < fuel →
      ∃ done' pending' k', done ++ pending = done' ++ pending' ∧
        Reads (consumeLoop decodeBody fuel c input) done' pending' k' ∧
        (pending'.flatMap Frame.bytes).drop k' = ((pending.flatMap Frame.bytes).drop k).drop input.length
  | [], done, c, k, input, fuel, _, hc, hpre, _ => by
    -- nothing is left to read
    have hk : k = 0 := hc.2.2.2.2.2
    subst hk
    have hin : input = [] := List.prefix_nil.mp (by simpa using hpre)
    subst hin
    exact ⟨done, [], 0, rfl, by simpa using hc, by simp⟩
  | f :: fs, done, c, k, input, fuel, hwf, hc, hpre, hfuel => by
    obtain ⟨hfailed, hpos, hsum, hdone, hcur, hk⟩ := hc
    have hstream : ((f :: fs).flatMap Frame.bytes).drop k =
        f.bytes.drop k ++ fs.flatMap Frame.bytes := by
      rw [List.flatMap_cons, List.drop_append_of_le_length hk.le]
    rw [hstream] at hpre
    obtain ⟨fuel, rfl⟩ : ∃ fuel', fuel = fuel' + 1 := ⟨fuel - 1, by omega⟩
    by_cases hnil : input = []
    · subst hnil
      exact ⟨done, f :: fs, k, rfl, by simpa using ⟨hfailed, hpos, hsum, hdone, hcur, hk⟩, by simp⟩
    by_cases hlt : k + input.length < f.bytes.length
    · -- the input ends inside the frame
      have hpre' : input <+: f.bytes.drop k :=
        List.prefix_of_prefix_length_le hpre (List.prefix_append _ _) (by simp; omega)
      have hdec := Frame.decode_after_lt (hwf f (by simp)) hnil hpre' hlt
      rw [consumeLoop_of_incomplete hfailed hnil (by rw [hcur, hdec]) (Frame.isBodyReady_after f _)]
      refine ⟨done, f :: fs, k + input.length, rfl, ⟨hfailed, ?_, ?_, hdone, rfl, hlt⟩, ?_⟩
      · intro x hx
        simp only [List.mem_append, List.mem_singleton] at hx
        rcases hx with hx | rfl
        · exact hpos x hx
        · exact_mod_cast List.length_pos_iff.mpr hnil
      · simp [hsum]
      · rw [List.drop_drop]
    · -- the input completes the frame and goes on into the next ones
      obtain ⟨rest, rfl, hrest⟩ := exists_rest_of_prefix hpre (by simp; omega)
      have hn : 0 < f.bytes.length - k := by omega
      have hdec := Frame.decode_after_ready (hwf f (by simp)) hk rest
      rw [consumeLoop_complete hfailed hnil hn (by rw [hcur, hdec]) rfl,
        List.drop_left' (by simp)]
      have hnext := reads_next
        (show Reads c done (f :: fs) k from ⟨hfailed, hpos, hsum, hdone, hcur, hk⟩) hn (by omega)
        (Frame.view_complete f (f.bytes.length + rest.length))
      obtain ⟨done', pending', k', heq, hreads, hstr⟩ :=
        consumeLoop_reads fs (done ++ [f]) _ 0 rest fuel (fun g hg => hwf g (by simp [hg]))
          hnext (by simpa using hrest) (by simp at hfuel; omega)
      refine ⟨done', pending', k', by rw [← heq]; simp, hreads, ?_⟩
      rw [hstr, hstream, List.length_append, ← List.drop_drop, List.drop_left]
      simp

/-- The chunks of the rest of the stream, one `consume` each: at their end every frame is
completed, one message each. -/
theorem foldl_consume_reads :
    ∀ (chunks : List (List UInt8)) (done pending : List Frame) (c : Consumer) (k : Nat),
      (∀ f ∈ done ++ pending, f.WellFormed decodeBody) → Reads c done pending k →
      chunks.flatten = (pending.flatMap Frame.bytes).drop k →
      Reads (chunks.foldl (consume decodeBody) c) (done ++ pending) [] 0
  | [], done, pending, c, k, _, hc, hstream => by
    -- an empty rest of the stream leaves no frame pending
    cases pending with
    | nil =>
      have hk : k = 0 := hc.2.2.2.2.2
      subst hk
      simpa using hc
    | cons f fs =>
      have hk := hc.2.2.2.2.2
      rw [List.flatMap_cons, List.drop_append_of_le_length hk.le] at hstream
      have hdrop : f.bytes.drop k = [] := (List.append_eq_nil_iff.mp hstream.symm).1
      rw [List.drop_eq_nil_iff] at hdrop
      omega
  | chunk :: chunks, done, pending, c, k, hwf, hc, hstream => by
    have hpre : chunk <+: (pending.flatMap Frame.bytes).drop k := by
      rw [← hstream, List.flatten_cons]
      exact List.prefix_append _ _
    obtain ⟨done', pending', k', heq, hreads, hstr⟩ :=
      consumeLoop_reads pending done c k chunk (chunk.length + 1)
        (fun f hf => hwf f (by simp [hf])) hc hpre (Nat.lt_succ_self _)
    rw [heq] at hwf ⊢
    refine foldl_consume_reads chunks done' pending' _ k' hwf hreads ?_
    rw [hstr, ← hstream, List.flatten_cons, List.drop_left]

/-- However a stream of well-formed frames is cut into chunks, `consume` decodes it into one
message per frame, each the frame's fields and body, as one call on the whole frame gives
them, with positive counts that sum to the frame's length, and no call fails. -/
theorem consumeChunks_frames (frames : List Frame)
    (hwf : ∀ f ∈ frames, f.WellFormed decodeBody) (chunks : List (List UInt8))
    (hstream : chunks.flatten = frames.flatMap Frame.bytes) :
    (consumeChunks decodeBody chunks).failed = false ∧
      (consumeChunks decodeBody chunks).current = .empty ∧
      (consumeChunks decodeBody chunks).counts = [] ∧
      List.Forall₂ (fun (d : ResponseMessage × List Int) (f : Frame) =>
          (∀ n ∈ d.2, 0 < n) ∧ d.2.sum = f.bytes.length ∧
            d.1.view = (ResponseMessage.empty.decode decodeBody f.bytes).2.view ∧
            d.1.view = f.view)
        (consumeChunks decodeBody chunks).done frames := by
  have hstart : Reads (start : Consumer) [] frames 0 := by
    refine ⟨rfl, by simp [start], rfl, .nil, ?_⟩
    cases frames with
    | nil => exact ⟨rfl, rfl⟩
    | cons f _ =>
      refine ⟨(Frame.after_zero f).symm, ?_⟩
      have := f.headerSize_le_length_bytes
      have := f.eight_le_headerSize
      omega
  obtain ⟨hfailed, hpos, hsum, hdone, hcur, -⟩ :=
    foldl_consume_reads chunks [] frames start 0 (by simpa using hwf) hstart (by simpa using hstream)
  unfold consumeChunks
  have hcounts : (chunks.foldl (consume decodeBody) start).counts = [] := by
    by_contra hne
    have := List.sum_pos _ hpos hne
    omega
  refine ⟨hfailed, hcur, hcounts, ?_⟩
  -- each completed message is also what one call on its whole frame gives
  clear hstream hstart hcounts hsum hpos hcur hfailed
  simp only [List.nil_append] at hdone
  generalize (chunks.foldl (consume decodeBody) start).done = ds at hdone ⊢
  induction hdone with
  | nil => exact .nil
  | @cons d f ds fs hd _ ih =>
    obtain ⟨hdpos, hdsum, hdview⟩ := hd
    have hone : (ResponseMessage.empty.decode decodeBody f.bytes).2.view = f.view := by
      rw [Frame.decode_bytes (hwf f (by simp)), Frame.view_complete]
    exact .cons ⟨hdpos, hdsum, hdview.trans hone.symm, hdview⟩
      (ih (fun g hg => hwf g (by simp [hg])))

/-- Two frames, a `READY` and a `RESULT` with a four-byte body, cut inside the first header,
across the second header and inside the second body. -/
theorem consumeChunks_frames_twoFrames :
    let frames : List Frame := [⟨0x84, 0, 1, 0x02, []⟩, ⟨0x84, 0, 2, 0x08, [0, 0, 0, 1]⟩]
    let chunks : List (List UInt8) :=
      [[0x84, 0, 0], [1, 2, 0, 0, 0, 0, 0x84, 0, 0, 2, 8, 0, 0, 0, 4, 0, 0], [0, 1]]
    (∀ f ∈ frames, f.WellFormed fun _ _ _ _ => true) ∧
      chunks.flatten = frames.flatMap Frame.bytes ∧
      (consumeChunks (fun _ _ _ _ => true) chunks).failed = false ∧
      (consumeChunks (fun _ _ _ _ => true) chunks).current = .empty ∧
      (consumeChunks (fun _ _ _ _ => true) chunks).counts = [] ∧
      List.Forall₂ (fun (d : ResponseMessage × List Int) (f : Frame) =>
          (∀ n ∈ d.2, 0 < n) ∧ d.2.sum = f.bytes.length ∧
            d.1.view = (ResponseMessage.empty.decode (fun _ _ _ _ => true) f.bytes).2.view ∧
            d.1.view = f.view)
        (consumeChunks (fun _ _ _ _ => true) chunks).done frames := by
  intro frames chunks
  have hwf : ∀ f ∈ frames, f.WellFormed fun _ _ _ _ => true := by
    intro f hf
    simp only [frames, List.mem_cons, List.not_mem_nil, or_false] at hf
    rcases hf with rfl | rfl <;> exact ⟨by decide, by decide, by decide, by decide, by decide, rfl⟩
  have hstream : chunks.flatten = frames.flatMap Frame.bytes := by decide
  exact ⟨hwf, hstream, consumeChunks_frames frames hwf chunks hstream⟩

end Consumer

end CassandraDriver
