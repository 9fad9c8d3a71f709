import CassandraDriver.Data.Bitmap
import Mathlib.Data.List.AList
import Mathlib.Data.Int.Interval

/-!
# Stream ids

`StreamManager` of `stream_manager.hpp` hands out the stream ids of the requests a connection
writes and keeps the item of each pending one until its response comes back. It keeps the same
information twice: a bitmap of 64-bit words with a bit set for each free stream, scanned from a
rotating word offset with count-trailing-zeros, and the hash map of the pending streams (an
association list here). The invariant `Inv` ties them together: below `max_streams`, a stream's
bit is clear exactly when the stream is pending. Every call keeps it, so it holds in every state
a run of calls reaches, and from it `acquire` hands out a stream that is not pending, or `-1`
exactly when all of them are.
-/

namespace CassandraDriver

/-- `max_streams_for_protocol_version`: half the range of the stream field, the negative half
being for the server's events. -/
def maxStreamsForProtocolVersion (protocolVersion : Int) : Nat :=
  if protocolVersion ≥ 3 then 32768 else 128

/-- `StreamManager<T>`: the bitmap of the free streams, the word where the next scan starts, and
the items of the pending streams. -/
structure StreamManager (α : Type) where
  maxStreams : Nat
  numWords : Nat
  offset : Nat
  words : List (BitVec 64)
  pending : AList (fun _ : Int => α)

namespace StreamManager

variable {α : Type}

/-- `NUM_BITS_PER_WORD`: a `word_t` is a 64-bit `unsigned long`. -/
def numBitsPerWord : Nat := 64

/-- The constructor: every bit set, every stream free. -/
def new (protocolVersion : Int) : StreamManager α :=
  let maxStreams := maxStreamsForProtocolVersion protocolVersion
  ⟨maxStreams, maxStreams / numBitsPerWord, 0,
    List.replicate (maxStreams / numBitsPerWord) (BitVec.allOnes 64), ∅⟩

/-- `count_trailing_zeros` (`__builtin_ctzl`): the lowest set bit of a word that is not zero. -/
def countTrailingZeros (word : BitVec 64) : Nat :=
  (List.range 64).findIdx fun i => word.getLsbD i

/-- `get_and_set_first_available_stream`: the lowest free stream of word `index` is taken. -/
def getAndSetFirstAvailableStream (words : List (BitVec 64)) (index : Nat) :
    Int × List (BitVec 64) :=
  let word := words.getD index 0
  if word = 0 then (-1, words)
  else
    let stream := countTrailingZeros word
    (stream, words.set index (word ^^^ 1#64 <<< stream))

/-- The loop of `acquire_stream`, over the word indices in the order it visits them. -/
def scan (m : StreamManager α) : List Nat → Int × StreamManager α
  | [] => (-1, m)
  | index :: indices =>
    let r := getAndSetFirstAvailableStream m.words index
    if r.1 ≥ 0 then (r.1 + numBitsPerWord * index, { m with words := r.2 })
    else scan m indices

/-- The word indices `acquire_stream` visits: `(i + offset) % num_words` for `i` from `0`. -/
def scanOrder (numWords offset : Nat) : List Nat :=
  (List.range numWords).map fun i => (i + offset) % numWords

/-- `acquire_stream`: the offset moves on at every call. -/
def acquireStream (m : StreamManager α) : Int × StreamManager α :=
  scan { m with offset := m.offset + 1 } (scanOrder m.numWords m.offset)

/-- `acquire` -/
def acquire (m : StreamManager α) (item : α) : Int × StreamManager α :=
  let r := m.acquireStream
  if r.1 < 0 then (-1, r.2)
  else (r.1, { r.2 with pending := r.2.pending.insert r.1 item })

/-- `release_stream`; `none` when its assertion that the stream is taken fails. -/
def releaseStream (m : StreamManager α) (stream : Int) : Option (StreamManager α) :=
  let index := stream.toNat / numBitsPerWord
  let word := m.words.getD index 0
  if word.getLsbD (stream.toNat % numBitsPerWord) then none
  else some { m with words := m.words.set index (word ||| 1#64 <<< (stream.toNat % numBitsPerWord)) }

/-- `release`; `none` when an assertion fails. -/
def release (m : StreamManager α) (stream : Int) : Option (StreamManager α) :=
  if 0 ≤ stream ∧ stream < m.maxStreams then
    { m with pending := m.pending.erase stream }.releaseStream stream
  else none

/-- `get_pending_and_release`: the item of a pending stream, whose stream is released; nothing
for any other stream. -/
def getPendingAndRelease (m : StreamManager α) (stream : Int) :
    Option (Option α × StreamManager α) :=
  match m.pending.lookup stream with
  | some item =>
    ({ m with pending := m.pending.erase stream }.releaseStream stream).map fun m' => (some item, m')
  | none => some (none, m)

/-- `available_streams` -/
def availableStreams (m : StreamManager α) : Nat := m.maxStreams - m.pending.entries.length

/-- `pending_streams` -/
def pendingStreams (m : StreamManager α) : Nat := m.pending.entries.length

/-- The calls on a stream manager. -/
inductive Op (α : Type)
  | acquire (item : α)
  | release (stream : Int)
  | getPendingAndRelease (stream : Int)

/-- One call; `none` when an assertion fails. -/
def step (m : StreamManager α) : Op α → Option (StreamManager α)
  | .acquire item => some (m.acquire item).2
  | .release stream => m.release stream
  | .getPendingAndRelease stream => (m.getPendingAndRelease stream).map Prod.snd

/-- A run of calls, stopped by a failed assertion. -/
def run (m : StreamManager α) : List (Op α) → Option (StreamManager α)
  | [] => some m
  | op :: ops => (m.step op).bind fun m' => m'.run ops

/-- The states that some run of calls reaches from a new stream manager. -/
inductive Reachable : StreamManager α → Prop
  | new (protocolVersion : Int) : Reachable (new protocolVersion)
  | step {m m' : StreamManager α} (op : Op α) : Reachable m → m.step op = some m' → Reachable m'

lemma Reachable.run {m m' : StreamManager α} {ops : List (Op α)} (hm : Reachable m)
    (hrun : m.run ops = some m') : Reachable m' := by
  induction ops generalizing m with
  | nil =>
    cases hrun
    exact hm
  | cons op ops ih =>
    obtain ⟨m₁, h₁, h₂⟩ := Option.bind_eq_some_iff.mp hrun
    exact ih (hm.step op h₁) h₂

/-! ### Taking a free stream -/

@[simp] lemma numBitsPerWord_eq : numBitsPerWord = 64 := rfl

/-- The lowest set bit of a word that is not zero is a set bit. -/
lemma countTrailingZeros_spec {word : BitVec 64} (h : word ≠ 0) :
    countTrailingZeros word < 64 ∧ word.getLsbD (countTrailingZeros word) = true := by
  have hex : ∃ i ∈ List.range 64, word.getLsbD i = true := by
    by_contra hall
    apply h
    apply BitVec.eq_of_getLsbD_eq
    intro i hi
    by_contra hbit
    exact hall ⟨i, List.mem_range.2 hi, by simpa using hbit⟩
  have hlt := List.findIdx_lt_length_of_exists hex
  rw [List.length_range] at hlt
  refine ⟨hlt, ?_⟩
  have hbit := @List.findIdx_getElem _ (fun i => word.getLsbD i) (List.range 64)
    (by rw [List.length_range]; exact hlt)
  rwa [List.getElem_range] at hbit

/-- A word that is not zero gives its lowest set bit, cleared. -/
lemma getAndSetFirstAvailableStream_of_ne_zero {words : List (BitVec 64)} {index : Nat}
    (h : words.getD index 0 ≠ 0) :
    getAndSetFirstAvailableStream words index =
      (((countTrailingZeros (words.getD index 0) : Nat) : Int), words.set index
        (words.getD index 0 ^^^ 1#64 <<< countTrailingZeros (words.getD index 0))) := by
  unfold getAndSetFirstAvailableStream
  rw [if_neg h]

lemma getAndSetFirstAvailableStream_of_eq_zero {words : List (BitVec 64)} {index : Nat}
    (h : words.getD index 0 = 0) : getAndSetFirstAvailableStream words index = (-1, words) := by
  unfold getAndSetFirstAvailableStream
  rw [if_pos h]

/-- The loop stops at the first word of the order that is not zero and takes its lowest set
bit, or goes through them all and gives `-1`. -/
lemma scan_spec (m : StreamManager α) (indices : List Nat) :
    (scan m indices = (-1, m) ∧ ∀ i ∈ indices, m.words.getD i 0 = 0) ∨
      ∃ i ∈ indices, let word := m.words.getD i 0
        word ≠ 0 ∧ scan m indices = (((countTrailingZeros word + numBitsPerWord * i : Nat) : Int),
          { m with words := m.words.set i (word ^^^ 1#64 <<< countTrailingZeros word) }) := by
  induction indices with
  | nil => exact Or.inl ⟨rfl, by simp⟩
  | cons index indices ih =>
    by_cases hzero : m.words.getD index 0 = 0
    · have hscan : scan m (index :: indices) = scan m indices := by
        simp [scan, getAndSetFirstAvailableStream_of_eq_zero hzero]
      rcases ih with ⟨hnone, hall⟩ | ⟨i, hi, hne, hsome⟩
      · refine Or.inl ⟨hscan.trans hnone, ?_⟩
        intro i hi
        rcases List.mem_cons.1 hi with rfl | hi
        · exact hzero
        · exact hall i hi
      · exact Or.inr ⟨i, List.mem_cons_of_mem index hi, hne, hscan.trans hsome⟩
    · refine Or.inr ⟨index, List.mem_cons_self, hzero, ?_⟩
      simp [scan, getAndSetFirstAvailableStream_of_ne_zero hzero]

/-- The order visits every word. -/
lemma mem_scanOrder {numWords offset i : Nat} (hi : i < numWords) :
    i ∈ scanOrder numWords offset := by
  refine List.mem_map.2 ⟨(i + (numWords - offset % numWords)) % numWords,
    List.mem_range.2 (Nat.mod_lt _ (by omega)), ?_⟩
  -- going `numWords - offset % numWords` further on comes back to `i` after `offset`
  have hmod := Nat.mod_add_div offset numWords
  have hlt := Nat.mod_lt offset (by omega : 0 < numWords)
  have hsum : i + (numWords - offset % numWords) + offset = i + numWords * (offset / numWords + 1) := by
    rw [Nat.mul_succ]
    omega
  rw [Nat.mod_add_mod, hsum, Nat.add_mul_mod_self_left, Nat.mod_eq_of_lt hi]

lemma lt_of_mem_scanOrder {numWords offset i : Nat} (hi : i ∈ scanOrder numWords offset) :
    i < numWords := by
  obtain ⟨j, hj, rfl⟩ := List.mem_map.1 hi
  exact Nat.mod_lt _ (by have := List.mem_range.1 hj; omega)

/-! ### The invariant -/

/-- The bitmap and the pending map agree: `max_streams` is the number of bits of the words,
below it a stream's bit is set exactly when the stream is not pending, and every pending stream
lies below it. -/
structure Inv (m : StreamManager α) : Prop where
  maxStreams_eq : m.maxStreams = numBitsPerWord * m.numWords
  numWords_pos : 0 < m.numWords
  length_words : m.words.length = m.numWords
  pending_lt : ∀ k ∈ m.pending, 0 ≤ k ∧ k < m.maxStreams
  member_iff : ∀ k : Nat, k < m.maxStreams →
    (Bitmap.member m.words k = true ↔ (k : Int) ∉ m.pending)

/-- A new stream manager has every stream free. -/
lemma inv_new (protocolVersion : Int) : Inv (new protocolVersion : StreamManager α) := by
  have hmax : maxStreamsForProtocolVersion protocolVersion = numBitsPerWord * 2 ∨
      maxStreamsForProtocolVersion protocolVersion = numBitsPerWord * 512 := by
    unfold maxStreamsForProtocolVersion numBitsPerWord
    split_ifs
    · exact Or.inr rfl
    · exact Or.inl rfl
  have hwords : maxStreamsForProtocolVersion protocolVersion =
      numBitsPerWord * (maxStreamsForProtocolVersion protocolVersion / numBitsPerWord) := by
    rcases hmax with h | h <;> rw [h, Nat.mul_div_cancel_left _ (by decide)]
  refine ⟨hwords, ?_, List.length_replicate, fun k hk => absurd hk (AList.notMem_empty k), ?_⟩
  · show 0 < maxStreamsForProtocolVersion protocolVersion / numBitsPerWord
    rcases hmax with h | h <;> rw [h, Nat.mul_div_cancel_left _ (by decide)] <;> decide
  · intro k hk
    -- the word of stream k is one of the words, all of whose bits are set
    have hword : k / 64 < maxStreamsForProtocolVersion protocolVersion / numBitsPerWord :=
      Nat.div_lt_of_lt_mul (hwords ▸ hk)
    have hbit : k % 64 < 64 := Nat.mod_lt k (by decide)
    simp only [new, Bitmap.member, List.getD_replicate _ hword, BitVec.getLsbD_allOnes, hbit,
      decide_true, true_iff]
    exact AList.notMem_empty (k : Int)

section Inv

variable {m : StreamManager α}

/-- When every word is zero, every stream is pending. -/
lemma Inv.pending_of_zero (hm : Inv m) (hzero : ∀ i < m.numWords, m.words.getD i 0 = 0) :
    ∀ k : Nat, k < m.maxStreams → (k : Int) ∈ m.pending := by
  intro k hk
  have hi : k / 64 < m.numWords := Nat.div_lt_of_lt_mul (hm.maxStreams_eq ▸ hk)
  have hmember : Bitmap.member m.words k = false := by
    rw [Bitmap.member, hzero _ hi]
    simp
  by_contra hnot
  have hfree := (hm.member_iff k hk).2 hnot
  rw [hmember] at hfree
  exact Bool.false_ne_true hfree

/-- When every stream is pending, every word is zero. -/
lemma Inv.zero_of_pending (hm : Inv m)
    (hall : ∀ k : Nat, k < m.maxStreams → (k : Int) ∈ m.pending) :
    ∀ i < m.numWords, m.words.getD i 0 = 0 := by
  intro i hi
  rw [Bitmap.getD_eq_zero_iff]
  intro b hb
  have hk : i * 64 + b < m.maxStreams := by
    rw [hm.maxStreams_eq]
    unfold numBitsPerWord
    omega
  cases hmember : Bitmap.member m.words (i * 64 + b) with
  | false => rfl
  | true => exact absurd (hall _ hk) ((hm.member_iff _ hk).1 hmember)

/-- `acquire_stream` either finds every word zero and gives `-1`, with every stream pending, or
takes a free stream below `max_streams`, clearing its bit and no other. -/
lemma Inv.acquireStream_cases (hm : Inv m) :
    (m.acquireStream = (-1, { m with offset := m.offset + 1 }) ∧
        ∀ k : Nat, k < m.maxStreams → (k : Int) ∈ m.pending) ∨
      ∃ k : Nat, ∃ words : List (BitVec 64),
        m.acquireStream = ((k : Int), { m with offset := m.offset + 1, words := words }) ∧
        k < m.maxStreams ∧ (k : Int) ∉ m.pending ∧ words.length = m.words.length ∧
        ∀ j, Bitmap.member words j = (Bitmap.member m.words j && !decide (j = k)) := by
  rcases scan_spec { m with offset := m.offset + 1 } (scanOrder m.numWords m.offset) with
    ⟨hscan, hzero⟩ | ⟨i, hi, hne, hscan⟩
  · exact Or.inl ⟨hscan, hm.pending_of_zero fun i hi => hzero i (mem_scanOrder hi)⟩
  · -- the first word of the order that is not zero gives its lowest set bit
    have hi' : i < m.words.length := hm.length_words ▸ lt_of_mem_scanOrder hi
    obtain ⟨hb, hset⟩ := countTrailingZeros_spec hne
    set b := countTrailingZeros (m.words.getD i 0)
    have hk : i * 64 + b = b + numBitsPerWord * i := by
      unfold numBitsPerWord
      omega
    have hfree : Bitmap.member m.words (b + numBitsPerWord * i) = true := by
      rw [← hk, Bitmap.member_mul_add m.words hb]
      exact hset
    have hlt : b + numBitsPerWord * i < m.maxStreams := by
      rw [hm.maxStreams_eq]
      unfold numBitsPerWord at hk ⊢
      have := lt_of_mem_scanOrder hi
      omega
    refine Or.inr ⟨b + numBitsPerWord * i, _, hscan, hlt, (hm.member_iff _ hlt).1 hfree,
      List.length_set, fun j => ?_⟩
    rw [Bitmap.member_xor_bit m.words hi' hb hset, hk]

/-- `acquire` under the invariant: a stream below `max_streams` that was not pending, now pending
with the item, or `-1` with every stream pending and the map unchanged; the invariant holds after
it. -/
lemma Inv.acquire (hm : Inv m) (item : α) :
    Inv (m.acquire item).2 ∧ (m.acquire item).2.maxStreams = m.maxStreams ∧
      ((0 ≤ (m.acquire item).1 ∧ (m.acquire item).1 < m.maxStreams ∧
          (m.acquire item).1 ∉ m.pending ∧
          (m.acquire item).2.pending = m.pending.insert (m.acquire item).1 item) ∨
        ((m.acquire item).1 = -1 ∧ (∀ k : Nat, k < m.maxStreams → (k : Int) ∈ m.pending) ∧
          (m.acquire item).2.pending = m.pending)) := by
  rcases hm.acquireStream_cases with ⟨hacq, hall⟩ | ⟨k, words, hacq, hlt, hfree, hlen, hmember⟩
  · have hnone : m.acquire item = (-1, { m with offset := m.offset + 1 }) := by
      simp [StreamManager.acquire, hacq]
    rw [hnone]
    exact ⟨⟨hm.maxStreams_eq, hm.numWords_pos, hm.length_words, hm.pending_lt, hm.member_iff⟩,
      rfl, Or.inr ⟨rfl, hall, rfl⟩⟩
  · have hsome : m.acquire item = ((k : Int),
        { m with offset := m.offset + 1, words := words, pending := m.pending.insert k item }) := by
      simp [StreamManager.acquire, hacq]
    rw [hsome]
    refine ⟨⟨hm.maxStreams_eq, hm.numWords_pos, hlen.trans hm.length_words, ?_, ?_⟩, rfl,
      Or.inl ⟨by omega, show (k : Int) < m.maxStreams by exact_mod_cast hlt, hfree, rfl⟩⟩
    · intro j hj
      rcases (AList.mem_insert _).1 hj with rfl | hj
      · exact ⟨by omega, by exact_mod_cast hlt⟩
      · exact hm.pending_lt j hj
    · -- the taken stream is pending now, and only its bit was cleared
      intro j hj
      rw [hmember, AList.mem_insert, Bool.and_eq_true, hm.member_iff j hj]
      simp only [Bool.not_eq_true', decide_eq_false_iff_not, Nat.cast_inj]
      tauto

/-- Setting the bit of a pending stream again, once the stream is out of the map: the assertion
holds, since the bit was clear, and the invariant holds after it. -/
lemma Inv.releaseStream_erase (hm : Inv m) {k : Int} (hk : k ∈ m.pending) :
    ∃ m', { m with pending := m.pending.erase k }.releaseStream k = some m' ∧ Inv m' ∧
      m'.pending = m.pending.erase k ∧ m'.maxStreams = m.maxStreams := by
  obtain ⟨hk0, hkmax⟩ := hm.pending_lt k hk
  obtain ⟨n, rfl⟩ : ∃ n : Nat, k = n := ⟨k.toNat, by omega⟩
  have hnmax : n < m.maxStreams := by exact_mod_cast hkmax
  have hclear : Bitmap.member m.words n = false := by
    by_contra hset
    exact (hm.member_iff n hnmax).1 (by simpa using hset) hk
  have hindex : n / 64 < m.words.length := by
    rw [hm.length_words]
    exact Nat.div_lt_of_lt_mul (hm.maxStreams_eq ▸ hnmax)
  have hbit : n % 64 < 64 := Nat.mod_lt n (by decide)
  let word := m.words.getD (n / 64) 0
  let released : StreamManager α :=
    { m with pending := m.pending.erase n, words := m.words.set (n / 64) (word ||| 1#64 <<< (n % 64)) }
  refine ⟨released, ?_,
    ⟨hm.maxStreams_eq, hm.numWords_pos, (List.length_set).trans hm.length_words,
      fun j hj => hm.pending_lt j (AList.mem_erase.1 hj).2, ?_⟩, rfl, rfl⟩
  · have hbitclear : (m.words.getD (n / 64) 0).getLsbD (n % 64) = false := hclear
    simp only [releaseStream, numBitsPerWord_eq, Int.toNat_natCast, hbitclear, Bool.false_eq_true,
      if_false]
    rfl
  · -- the released stream is free again, and only its bit was set
    intro j hj
    simp only [released]
    rw [Bitmap.member_or_bit m.words hindex hbit, Nat.div_add_mod' n 64, AList.mem_erase,
      Bool.or_eq_true, hm.member_iff j hj]
    simp only [decide_eq_true_eq, ne_eq, Nat.cast_inj]
    tauto

/-- `release` of a pending stream succeeds, and of any other stream fails an assertion. -/
lemma Inv.release (hm : Inv m) (k : Int) :
    (k ∈ m.pending → ∃ m', m.release k = some m' ∧ Inv m' ∧ m'.pending = m.pending.erase k ∧
      m'.maxStreams = m.maxStreams) ∧
    (k ∉ m.pending → m.release k = none) := by
  constructor
  · intro hk
    obtain ⟨hk0, hkmax⟩ := hm.pending_lt k hk
    rw [StreamManager.release, if_pos ⟨hk0, hkmax⟩]
    exact hm.releaseStream_erase hk
  · intro hk
    unfold StreamManager.release
    split_ifs with hrange
    · -- a free stream's bit is set, so the assertion of release_stream fails
      obtain ⟨n, rfl⟩ : ∃ n : Nat, k = n := ⟨k.toNat, by omega⟩
      have hset : (m.words.getD (n / 64) 0).getLsbD (n % 64) = true :=
        (hm.member_iff n (by exact_mod_cast hrange.2)).2 hk
      simp only [releaseStream, numBitsPerWord_eq, Int.toNat_natCast, hset, if_true]
    · rfl

/-- `get_pending_and_release` gives the item of the stream in the map, and takes the stream out
of it; the invariant holds after it. -/
lemma Inv.getPendingAndRelease (hm : Inv m) (k : Int) :
    ∃ m', m.getPendingAndRelease k = some (m.pending.lookup k, m') ∧ Inv m' ∧
      m'.pending = m.pending.erase k ∧ m'.maxStreams = m.maxStreams := by
  cases hlookup : m.pending.lookup k with
  | none =>
    have hk : k ∉ m.pending := AList.lookup_eq_none.1 hlookup
    have herase : m.pending.erase k = m.pending :=
      AList.ext (List.kerase_of_notMem_keys (AList.mem_keys.not.1 hk))
    refine ⟨m, ?_, hm, herase.symm, rfl⟩
    simp [StreamManager.getPendingAndRelease, hlookup]
  | some item =>
    have hk : k ∈ m.pending := AList.lookup_isSome.1 (by simp [hlookup])
    obtain ⟨m', hrelease, hm', hpending, hmax⟩ := hm.releaseStream_erase hk
    refine ⟨m', ?_, hm', hpending, hmax⟩
    simp [StreamManager.getPendingAndRelease, hlookup, hrelease]

/-- Every call keeps the invariant. -/
lemma Inv.step (hm : Inv m) {op : Op α} {m' : StreamManager α} (h : m.step op = some m') :
    Inv m' ∧ m'.maxStreams = m.maxStreams := by
  cases op with
  | acquire item =>
    cases h
    exact ⟨(hm.acquire item).1, (hm.acquire item).2.1⟩
  | release k =>
    by_cases hk : k ∈ m.pending
    · obtain ⟨m'', hrelease, hm'', -, hmax⟩ := (hm.release k).1 hk
      rw [StreamManager.step, hrelease] at h
      cases h
      exact ⟨hm'', hmax⟩
    · rw [StreamManager.step, (hm.release k).2 hk] at h
      cases h
  | getPendingAndRelease k =>
    obtain ⟨m'', hget, hm'', -, hmax⟩ := hm.getPendingAndRelease k
    rw [StreamManager.step, hget] at h
    cases h
    exact ⟨hm'', hmax⟩

/-- The map holds at most `max_streams` streams, so the two counts add up to it. -/
lemma Inv.availableStreams_add_pendingStreams (hm : Inv m) :
    m.availableStreams + m.pendingStreams = m.maxStreams := by
  have hsub : m.pending.keys.toFinset ⊆ Finset.Ico 0 (m.maxStreams : Int) := by
    intro k hk
    rw [List.mem_toFinset, ← AList.mem_keys] at hk
    exact Finset.mem_Ico.2 (hm.pending_lt k hk)
  have hcard := Finset.card_le_card hsub
  rw [List.toFinset_card_of_nodup m.pending.keys_nodup, Int.card_Ico, sub_zero,
    Int.toNat_natCast] at hcard
  have hlen : m.pending.entries.length = m.pending.keys.length := (List.length_map _).symm
  unfold availableStreams pendingStreams
  omega

end Inv

/-- Every reachable state keeps the invariant. -/
theorem Reachable.inv {m : StreamManager α} (h : Reachable m) : Inv m := by
  induction h with
  | new protocolVersion => exact inv_new protocolVersion
  | step op _ hstep ih => exact (ih.step hstep).1

/-- Whether a call gives the stream back. -/
def Op.releases : Op α → Int → Bool
  | .acquire _, _ => false
  | .release stream, k => stream == k
  | .getPendingAndRelease stream, k => stream == k

/-- A call that does not give a pending stream back leaves its item alone. -/
lemma Inv.lookup_step {m m' : StreamManager α} (hm : Inv m) {op : Op α}
    (h : m.step op = some m') {k : Int} (hk : k ∈ m.pending) (hop : op.releases k = false) :
    m'.pending.lookup k = m.pending.lookup k := by
  cases op with
  | acquire item =>
    cases h
    rcases (hm.acquire item).2.2 with ⟨-, -, hfree, hpending⟩ | ⟨-, -, hpending⟩
    · -- the stream taken was not pending, so it is not `k`
      rw [hpending, AList.lookup_insert_ne]
      rintro rfl
      exact hfree hk
    · rw [hpending]
  | release stream =>
    have hne : k ≠ stream := fun heq => by simp [Op.releases, heq] at hop
    by_cases hs : stream ∈ m.pending
    · obtain ⟨m'', hrelease, -, hpending, -⟩ := (hm.release stream).1 hs
      rw [StreamManager.step, hrelease] at h
      cases h
      rw [hpending, AList.lookup_erase_ne hne]
    · rw [StreamManager.step, (hm.release stream).2 hs] at h
      cases h
  | getPendingAndRelease stream =>
    have hne : k ≠ stream := fun heq => by simp [Op.releases, heq] at hop
    obtain ⟨m'', hget, -, hpending, -⟩ := hm.getPendingAndRelease stream
    rw [StreamManager.step, hget] at h
    cases h
    rw [hpending, AList.lookup_erase_ne hne]

/-- Every run of calls keeps the invariant. -/
lemma Inv.run {m m' : StreamManager α} (hm : Inv m) {ops : List (Op α)} (h : m.run ops = some m') :
    Inv m' := by
  induction ops generalizing m with
  | nil =>
    cases h
    exact hm
  | cons op ops ih =>
    obtain ⟨m₁, hstep, hrun⟩ := Option.bind_eq_some_iff.1 h
    exact ih (hm.step hstep).1 hrun

/-- A pending stream keeps its item through every run of calls that do not give it back. -/
lemma Inv.lookup_run {m m' : StreamManager α} (hm : Inv m) {ops : List (Op α)} {k : Int}
    (hk : k ∈ m.pending) (hops : ∀ op ∈ ops, op.releases k = false) (h : m.run ops = some m') :
    m'.pending.lookup k = m.pending.lookup k := by
  induction ops generalizing m with
  | nil =>
    cases h
    rfl
  | cons op ops ih =>
    obtain ⟨m₁, hstep, hrun⟩ := Option.bind_eq_some_iff.1 h
    have hlookup := hm.lookup_step hstep hk (hops op List.mem_cons_self)
    have hk₁ : k ∈ m₁.pending := AList.lookup_isSome.1 (by rw [hlookup]; exact AList.lookup_isSome.2 hk)
    rw [ih (hm.step hstep).1 hk₁ (fun op' hop' => hops op' (List.mem_cons_of_mem op hop')) hrun,
      hlookup]

/-- Stream ids are exact in every reachable state: the clear bits below `max_streams` are the
pending streams, the counts add up, `acquire` hands out a stream that is not pending, or `-1`
exactly when all are, and `get_pending_and_release` finds the item that the `acquire` of the
stream stored, through any calls that do not give the stream back. -/
theorem streamManager_exact {m : StreamManager α} (h : Reachable m) :
    (∀ k : Nat, k < m.maxStreams → (Bitmap.member m.words k = false ↔ (k : Int) ∈ m.pending)) ∧
    (∀ k ∈ m.pending, 0 ≤ k ∧ k < m.maxStreams) ∧
    m.availableStreams + m.pendingStreams = m.maxStreams ∧
    (∀ item : α,
      ((m.acquire item).1 = -1 ↔ ∀ k : Nat, k < m.maxStreams → (k : Int) ∈ m.pending) ∧
      ((m.acquire item).1 ≠ -1 → 0 ≤ (m.acquire item).1 ∧ (m.acquire item).1 < m.maxStreams ∧
        (m.acquire item).1 ∉ m.pending ∧
        (m.acquire item).2.pending = m.pending.insert (m.acquire item).1 item)) ∧
    (∀ stream : Int, ∃ m', m.getPendingAndRelease stream = some (m.pending.lookup stream, m') ∧
      m'.pending = m.pending.erase stream) ∧
    (∀ (item : α) (ops : List (Op α)) (m' : StreamManager α), (m.acquire item).1 ≠ -1 →
      (∀ op ∈ ops, op.releases (m.acquire item).1 = false) →
      (m.acquire item).2.run ops = some m' →
      ∃ m'', m'.getPendingAndRelease (m.acquire item).1 = some (some item, m'')) := by
  have hm := h.inv
  refine ⟨fun k hk => ?_, hm.pending_lt, hm.availableStreams_add_pendingStreams,
    fun item => ⟨?_, ?_⟩, fun stream => ?_, fun item ops m' hne hops hrun => ?_⟩
  · rw [← Bool.not_eq_true, hm.member_iff k hk, not_not]
  · constructor
    · intro hnone
      rcases (hm.acquire item).2.2 with ⟨h0, -, -, -⟩ | ⟨-, hall, -⟩
      · omega
      · exact hall
    · intro hall
      rcases (hm.acquire item).2.2 with ⟨h0, hlt, hfree, -⟩ | ⟨hnone, -, -⟩
      · -- a stream below max_streams that is not pending contradicts all being pending
        obtain ⟨n, hn⟩ : ∃ n : Nat, (m.acquire item).1 = n := ⟨_, (Int.toNat_of_nonneg h0).symm⟩
        rw [hn] at hlt hfree
        exact absurd (hall n (by exact_mod_cast hlt)) hfree
      · exact hnone
  · intro hne
    rcases (hm.acquire item).2.2 with hsome | ⟨hnone, -, -⟩
    · exact hsome
    · exact absurd hnone hne
  · obtain ⟨m', hget, -, hpending, -⟩ := hm.getPendingAndRelease stream
    exact ⟨m', hget, hpending⟩
  · rcases (hm.acquire item).2.2 with ⟨-, -, -, hpending⟩ | ⟨hnone, -, -⟩
    · -- the acquired stream is pending with the item, and stays so through the run
      have hlookup : (m.acquire item).2.pending.lookup (m.acquire item).1 = some item := by
        rw [hpending, AList.lookup_insert]
      have hmem : (m.acquire item).1 ∈ (m.acquire item).2.pending :=
        AList.lookup_isSome.1 (by rw [hlookup]; rfl)
      have hlookup' := (hm.acquire item).1.lookup_run hmem hops hrun
      obtain ⟨m'', hget, -⟩ := ((hm.acquire item).1.run hrun).getPendingAndRelease
        (m.acquire item).1
      rw [hlookup', hlookup] at hget
      exact ⟨m'', hget⟩
    · exact absurd hnone hne

/-- Three streams acquired on a manager of the protocol of version 1, two of its 128 streams
given back, one of them through `get_pending_and_release`. -/
def acquireReleaseRun : List (Op Nat) :=
  [.acquire 10, .acquire 11, .acquire 12, .release 1, .getPendingAndRelease 0]

theorem streamManager_exact_acquireRelease :
    ∃ m, (new 1 : StreamManager Nat).run acquireReleaseRun = some m ∧
    (∀ k : Nat, k < m.maxStreams → (Bitmap.member m.words k = false ↔ (k : Int) ∈ m.pending)) ∧
    (∀ k ∈ m.pending, 0 ≤ k ∧ k < m.maxStreams) ∧
    m.availableStreams + m.pendingStreams = m.maxStreams ∧
    (∀ item : Nat,
      ((m.acquire item).1 = -1 ↔ ∀ k : Nat, k < m.maxStreams → (k : Int) ∈ m.pending) ∧
      ((m.acquire item).1 ≠ -1 → 0 ≤ (m.acquire item).1 ∧ (m.acquire item).1 < m.maxStreams ∧
        (m.acquire item).1 ∉ m.pending ∧
        (m.acquire item).2.pending = m.pending.insert (m.acquire item).1 item)) ∧
    (∀ stream : Int, ∃ m', m.getPendingAndRelease stream = some (m.pending.lookup stream, m') ∧
      m'.pending = m.pending.erase stream) ∧
    (∀ (item : Nat) (ops : List (Op Nat)) (m' : StreamManager Nat), (m.acquire item).1 ≠ -1 →
      (∀ op ∈ ops, op.releases (m.acquire item).1 = false) →
      (m.acquire item).2.run ops = some m' →
      ∃ m'', m'.getPendingAndRelease (m.acquire item).1 = some (some item, m'')) :=
  have hrun : (new 1 : StreamManager Nat).run acquireReleaseRun = some _ := rfl
  ⟨_, hrun, streamManager_exact ((Reachable.new 1).run hrun)⟩

end StreamManager

end CassandraDriver
