import Mathlib.Data.List.Lex
import Mathlib.Data.BitVec
import CassandraDriver.HashTable

/-!
# Socket addresses: order, equality and hash

An `Address` keeps a `sockaddr`, a `sockaddr_in` or a `sockaddr_in6` in one union of 28 bytes.
On Linux the family stands at offset 0 in host (little-endian) order and the port at offset 2
in network order. A `sockaddr_in` has its address at offset 4 and the 8 bytes of `sin_zero`
after it; a `sockaddr_in6` has `sin6_flowinfo` at 4, the address at 8 and `sin6_scope_id` at 24.

`Address::compare` reads the family, the port and the address and nothing else, and
`operator<` and `operator==` compare its result with `0`. It is the lexicographic comparison of
the list of what it reads (`compare_lt_zero_iff`, `compare_eq_zero_iff`), so `operator<` is a
strict weak order whose incomparability is `operator==` (`lt_isStrictWeakOrder`,
`incomparable_iff_eq`). `AddressHash` runs FNV-1a over all 16 or 28 bytes of the structure.
It agrees on equal addresses when the bytes `compare` does not read agree too
(`addressHash_eq_of_eq`), as they do for the IPv4 addresses `from_string` and `from_inet` make;
the scope id that the zone suffix of an IPv6 address sets is one such byte, and two addresses
that differ only there are equal and hash apart.
-/

namespace CassandraDriver

/-! ### FNV-1a -/

/-- A byte read through a `char`, which is signed: a byte above 127 is negative. -/
def signedChar (b : UInt8) : Int :=
  if b < 128 then b.toNat else b.toNat - 256

/-- `hash::nop`. -/
def nop (c : Int) : Int := c

/-- `::tolower` in the C locale. -/
def tolower (c : Int) : Int :=
  if 65 ≤ c ∧ c ≤ 90 then c + 32 else c

/-- `hash::fnv1a(data, length, op)` on a 64-bit platform: each `char` goes through `op`, and
the `int` it gives is widened with its sign to 64 bits before it is mixed in. -/
def hashFnv1a (op : Int → Int) (data : List UInt8) : BitVec 64 :=
  data.foldl (fun h b => (h ^^^ BitVec.ofInt 64 (op (signedChar b))) * 0x100000001b3)
    0xcbf29ce484222325

theorem CaseInsensitiveHashTable.tolowerChar_eq (b : UInt8) :
    CaseInsensitiveHashTable.tolowerChar b = tolower (signedChar b) := by
  have hb := b.toNat_lt
  unfold CaseInsensitiveHashTable.tolowerChar tolower signedChar
  by_cases hlt : b < 128
  · -- an ASCII byte: both sides test the same range
    have h65 : (65 : UInt8).toNat = 65 := rfl
    have h90 : (90 : UInt8).toNat = 90 := rfl
    simp only [hlt, if_true, UInt8.le_iff_toNat_le, h65, h90]
    split_ifs <;> omega
  · -- a negative `char` is never an upper-case letter
    have hge : 128 ≤ b.toNat := by simpa [UInt8.lt_iff_toNat_lt] using hlt
    simp only [hlt, if_false]
    rw [if_neg (by omega)]

/-- The hash of the case-insensitive table is `fnv1a` with `::tolower`. -/
theorem CaseInsensitiveHashTable.fnv1a_eq_hashFnv1a (name : List UInt8) :
    CaseInsensitiveHashTable.fnv1a name = hashFnv1a tolower name := by
  simp only [CaseInsensitiveHashTable.fnv1a, hashFnv1a, CaseInsensitiveHashTable.tolowerChar_eq]

/-! ### The address union -/

/-- The union inside an `Address`: the 28 bytes of a `sockaddr_in6`, of which a `sockaddr`
and a `sockaddr_in` use the first 16. -/
structure SockAddr where
  bytes : List UInt8
  length_bytes : bytes.length = 28

/-- `AF_INET`. -/
def afInet : Nat := 2

/-- `AF_INET6`. -/
def afInet6 : Nat := 10

@[simp] theorem afInet6_ne_afInet : afInet6 ≠ afInet := by decide

namespace SockAddr

/-- The byte at an offset of the union. -/
def byte (a : SockAddr) (i : Nat) : Nat := (a.bytes.getD i 0).toNat

/-- `Address::family`: `sa_family`, two bytes in host order. -/
def family (a : SockAddr) : Nat := a.byte 0 + 256 * a.byte 1

/-- `Address::port`: `htons` of `sin_port` or `sin6_port`, the two bytes at offset 2 in
network order, and `-1` for another family. -/
def port (a : SockAddr) : Int :=
  if a.family = afInet then 256 * a.byte 2 + a.byte 3
  else if a.family = afInet6 then 256 * a.byte 2 + a.byte 3
  else -1

/-- `sin_addr.s_addr`: the `uint32_t` at offset 4, in host order. -/
def sAddr (a : SockAddr) : Nat :=
  a.byte 4 + 256 * a.byte 5 + 65536 * a.byte 6 + 16777216 * a.byte 7

/-- `sin6_addr`: the 16 bytes at offset 8. -/
def sin6Addr (a : SockAddr) : List UInt8 := (a.bytes.drop 8).take 16

end SockAddr

/-- `memcmp` over two runs of bytes of one length: the difference of the first two bytes that
differ, read as `unsigned char`, and `0` when none do. Only its sign is specified. -/
def memcmp : List UInt8 → List UInt8 → Int
  | a :: as, b :: bs => if a = b then memcmp as bs else (a.toNat : Int) - b.toNat
  | _, _ => 0

namespace SockAddr

/-- `Address::compare(a, with_port)`. -/
def compare (a b : SockAddr) (withPort : Bool) : Int :=
  if a.family ≠ b.family then (if a.family < b.family then -1 else 1)
  else if withPort ∧ a.port ≠ b.port then (if a.port < b.port then -1 else 1)
  else if a.family = afInet then
    (if a.sAddr ≠ b.sAddr then (if a.sAddr < b.sAddr then -1 else 1) else 0)
  else if a.family = afInet6 then memcmp a.sin6Addr b.sin6Addr
  else 0

/-- `operator<` on addresses. -/
def lt (a b : SockAddr) : Prop := a.compare b true < 0

/-- `operator==` on addresses. -/
def eq (a b : SockAddr) : Prop := a.compare b true = 0

instance : DecidableRel lt := fun a b => inferInstanceAs (Decidable (a.compare b true < 0))

instance : DecidableRel eq := fun a b => inferInstanceAs (Decidable (a.compare b true = 0))

end SockAddr

/-! ### The order -/

theorem memcmp_eq_zero_iff {xs ys : List UInt8} (h : xs.length = ys.length) :
    memcmp xs ys = 0 ↔ xs = ys := by
  induction xs generalizing ys with
  | nil => cases ys <;> simp_all [memcmp]
  | cons x xs ih =>
    cases ys with
    | nil => simp at h
    | cons y ys =>
      simp only [List.length_cons, Nat.add_right_cancel_iff] at h
      by_cases hxy : x = y
      · simp [memcmp, hxy, ih h]
      · have hne : x.toNat ≠ y.toNat := fun e => hxy (UInt8.toNat_inj.mp e)
        simp only [memcmp, hxy, if_false, List.cons.injEq, false_and, iff_false]
        omega

theorem memcmp_neg_iff {xs ys : List UInt8} (h : xs.length = ys.length) :
    memcmp xs ys < 0 ↔ xs.map (fun b => (b.toNat : Int)) < ys.map (fun b => (b.toNat : Int)) := by
  induction xs generalizing ys with
  | nil => cases ys <;> simp_all [memcmp]
  | cons x xs ih =>
    cases ys with
    | nil => simp at h
    | cons y ys =>
      simp only [List.length_cons, Nat.add_right_cancel_iff] at h
      by_cases hxy : x = y
      · simp [memcmp, hxy, ih h]
      · have hne : x.toNat ≠ y.toNat := fun e => hxy (UInt8.toNat_inj.mp e)
        simp only [memcmp, hxy, if_false, List.map_cons, List.cons_lt_cons_iff]
        omega

theorem length_sin6Addr (a : SockAddr) : a.sin6Addr.length = 16 := by
  simp [SockAddr.sin6Addr, a.length_bytes]

namespace SockAddr

/-- What `compare` reads, in its order: the family, the port, then the IPv4 address as one
number or the 16 bytes of the IPv6 address. -/
def key (a : SockAddr) : List Int :=
  a.family :: a.port ::
    if a.family = afInet then [(a.sAddr : Int)]
    else if a.family = afInet6 then a.sin6Addr.map (fun b => (b.toNat : Int))
    else []

/-- Reading bytes as integers loses nothing. -/
theorem map_toNat_inj {xs ys : List UInt8} :
    xs.map (fun b => (b.toNat : Int)) = ys.map (fun b => (b.toNat : Int)) ↔ xs = ys :=
  (List.map_injective_iff.mpr (fun x y e => UInt8.toNat_inj.mp (by omega))).eq_iff

theorem compare_eq_zero_iff (a b : SockAddr) : a.compare b true = 0 ↔ a.key = b.key := by
  unfold compare key
  simp only [List.cons.injEq, Nat.cast_inj]
  by_cases hf : a.family = b.family
  · rw [if_neg (not_not_intro hf)]
    by_cases hp : a.port = b.port
    · rw [if_neg (fun h => h.2 hp)]
      simp only [hf, hp, true_and]
      by_cases h4 : b.family = afInet
      · simp only [if_pos h4, List.cons.injEq, Nat.cast_inj, and_true]
        by_cases hs : a.sAddr = b.sAddr
        · simp [hs]
        · rw [if_pos hs]
          split_ifs <;> simp [hs]
      · by_cases h6 : b.family = afInet6
        · simp only [if_neg h4, if_pos h6]
          rw [memcmp_eq_zero_iff (by simp [length_sin6Addr]), map_toNat_inj]
        · simp [h4, h6]
    · rw [if_pos ⟨trivial, hp⟩]
      simp only [hp, false_and, and_false, iff_false]
      split_ifs <;> decide
  · rw [if_pos hf]
    simp only [hf, false_and, iff_false]
    split_ifs <;> decide

theorem compare_lt_zero_iff (a b : SockAddr) : a.compare b true < 0 ↔ a.key < b.key := by
  unfold compare key
  simp only [List.cons_lt_cons_iff, Nat.cast_lt, Nat.cast_inj]
  by_cases hf : a.family = b.family
  · rw [if_neg (not_not_intro hf)]
    by_cases hp : a.port = b.port
    · rw [if_neg (fun h => h.2 hp)]
      simp only [hf, hp, lt_irrefl, false_or, true_and]
      by_cases h4 : b.family = afInet
      · simp only [if_pos h4, List.cons_lt_cons_iff, List.not_lt_nil, Nat.cast_lt, Nat.cast_inj,
          and_false, or_false]
        by_cases hs : a.sAddr = b.sAddr
        · simp [hs]
        · rw [if_pos hs]
          split_ifs <;> simp <;> omega
      · by_cases h6 : b.family = afInet6
        · simp only [if_neg h4, if_pos h6]
          exact memcmp_neg_iff (by simp [length_sin6Addr])
        · simp [h4, h6]
    · rw [if_pos ⟨trivial, hp⟩]
      simp only [hf, hp, lt_irrefl, false_or, true_and, false_and, or_false]
      split_ifs <;> simp <;> omega
  · rw [if_pos hf]
    simp only [hf, false_and, or_false]
    split_ifs <;> simp <;> omega

/-- `operator<` is the lexicographic order of the keys. -/
theorem lt_iff_key {a b : SockAddr} : a.lt b ↔ a.key < b.key := compare_lt_zero_iff a b

/-- `operator==` is the equality of the keys. -/
theorem eq_iff_key {a b : SockAddr} : a.eq b ↔ a.key = b.key := compare_eq_zero_iff a b

/-- Two addresses that neither precedes are the ones `operator==` identifies. -/
theorem incomparable_iff_eq (a b : SockAddr) : ¬a.lt b ∧ ¬b.lt a ↔ a.eq b := by
  rw [lt_iff_key, lt_iff_key, eq_iff_key, not_lt, not_lt]
  constructor
  · rintro ⟨hba, hab⟩
    exact le_antisymm hab hba
  · intro h
    exact ⟨h ▸ le_refl _, h ▸ le_refl _⟩

theorem eq_equivalence : Equivalence eq where
  refl _ := eq_iff_key.mpr rfl
  symm h := eq_iff_key.mpr (eq_iff_key.mp h).symm
  trans h₁ h₂ := eq_iff_key.mpr ((eq_iff_key.mp h₁).trans (eq_iff_key.mp h₂))

/-- `operator<` is a strict weak order, as the `std::map` of a `HostMap` needs. -/
theorem lt_isStrictWeakOrder : IsStrictWeakOrder SockAddr lt := by
  have hstrict : IsStrictOrder SockAddr lt :=
    { irrefl := fun a h => lt_irrefl a.key (lt_iff_key.mp h)
      trans := fun _ _ _ hab hbc =>
        lt_iff_key.mpr (lt_trans (lt_iff_key.mp hab) (lt_iff_key.mp hbc)) }
  refine @IsStrictWeakOrder.mk SockAddr lt hstrict ?_
  intro a b c hab hbc
  rw [incomparable_iff_eq] at hab hbc ⊢
  exact eq_equivalence.trans hab hbc

end SockAddr

/-! ### The hash -/

/-- `AddressHash`: FNV-1a over the `sockaddr_in` or the `sockaddr_in6`, all of its bytes, and
`0` for another family. -/
def addressHash (a : SockAddr) : BitVec 64 :=
  if a.family = afInet then hashFnv1a nop (a.bytes.take 16)
  else if a.family = afInet6 then hashFnv1a nop (a.bytes.take 28)
  else 0


namespace SockAddr

/-- The bytes `compare` does not read: `sin_zero` of an IPv4 address, `sin6_flowinfo` and
`sin6_scope_id` of an IPv6 one. -/
def unread (a : SockAddr) : List Nat :=
  if a.family = afInet then (List.range' 8 8).map a.byte
  else if a.family = afInet6 then (List.range' 4 4 ++ List.range' 24 4).map a.byte
  else []

theorem byte_lt (a : SockAddr) (i : Nat) : a.byte i < 256 := (a.bytes.getD i 0).toNat_lt

theorem take_eq_of_byte {a b : SockAddr} {n : Nat} (h : ∀ i < n, a.byte i = b.byte i) :
    a.bytes.take n = b.bytes.take n := by
  apply List.ext_getElem (by simp [a.length_bytes, b.length_bytes])
  intro i hia hib
  have hi : i < n := by simp at hia; omega
  have hab := h i hi
  simp only [byte, List.getD_eq_getElem?_getD, List.getElem?_eq_getElem (by simp at hia; omega :
    i < a.bytes.length), List.getElem?_eq_getElem (by simp at hib; omega : i < b.bytes.length),
    Option.getD_some] at hab
  simpa using UInt8.toNat_inj.mp hab

theorem bytes_of_family {a b : SockAddr} (hf : a.family = b.family) :
    a.byte 0 = b.byte 0 ∧ a.byte 1 = b.byte 1 := by
  have := a.byte_lt 0; have := b.byte_lt 0
  unfold family at hf
  omega

theorem bytes_of_port {a b : SockAddr} (hfam : a.family = afInet ∨ a.family = afInet6)
    (hf : a.family = b.family) (hp : a.port = b.port) :
    a.byte 2 = b.byte 2 ∧ a.byte 3 = b.byte 3 := by
  have := a.byte_lt 3; have := b.byte_lt 3
  have hport : ∀ c : SockAddr, (c.family = afInet ∨ c.family = afInet6) →
      c.port = 256 * c.byte 2 + c.byte 3 := by
    rintro c (h | h) <;> simp [port, h]
  rw [hport a hfam, hport b (hf ▸ hfam)] at hp
  omega

theorem bytes_of_sAddr {a b : SockAddr} (hs : a.sAddr = b.sAddr) :
    a.byte 4 = b.byte 4 ∧ a.byte 5 = b.byte 5 ∧ a.byte 6 = b.byte 6 ∧
      a.byte 7 = b.byte 7 := by
  have := a.byte_lt 4; have := b.byte_lt 4; have := a.byte_lt 5; have := b.byte_lt 5
  have := a.byte_lt 6; have := b.byte_lt 6
  unfold sAddr at hs
  omega

theorem byte_of_sin6Addr (a : SockAddr) {j : Nat} (hj : j < 16) :
    (a.sin6Addr.getD j 0).toNat = a.byte (8 + j) := by
  simp [sin6Addr, byte, List.getD_eq_getElem?_getD, hj]

end SockAddr

open SockAddr in
/-- Equal addresses hash alike when the bytes `compare` does not read agree as well. -/
theorem addressHash_eq_of_eq {a b : SockAddr} (h : a.eq b) (hu : a.unread = b.unread) :
    addressHash a = addressHash b := by
  have hk := eq_iff_key.mp h
  simp only [key, List.cons.injEq, Nat.cast_inj] at hk
  obtain ⟨hf, hp, haddr⟩ := hk
  obtain ⟨h0, h1⟩ := bytes_of_family hf
  simp only [unread, hf] at hu haddr
  unfold addressHash
  rw [hf]
  by_cases h4 : b.family = afInet
  · -- family, port and address from the key, `sin_zero` from the unread bytes
    simp only [if_pos h4] at hu haddr ⊢
    obtain ⟨h2, h3⟩ := bytes_of_port (Or.inl (hf.trans h4)) hf hp
    obtain ⟨hs4, hs5, hs6, hs7⟩ := bytes_of_sAddr (by simpa using haddr)
    have hzero := List.map_inj_left.mp hu
    rw [take_eq_of_byte fun i hi => ?_]
    rcases Nat.lt_or_ge i 8 with hi8 | hi8
    · interval_cases i <;> assumption
    · exact hzero i (List.mem_range'_1.mpr ⟨hi8, by omega⟩)
  · by_cases h6 : b.family = afInet6
    · -- family and port from the key, the address from its bytes, the rest from the unread bytes
      simp only [if_neg h4, if_pos h6] at hu haddr ⊢
      obtain ⟨h2, h3⟩ := bytes_of_port (Or.inr (hf.trans h6)) hf hp
      have hflow := List.map_inj_left.mp hu
      have hsin6 := map_toNat_inj.mp haddr
      rw [take_eq_of_byte fun i hi => ?_]
      rcases Nat.lt_or_ge i 4 with hi4 | hi4
      · interval_cases i <;> assumption
      rcases Nat.lt_or_ge i 8 with hi8 | hi8
      · exact hflow i (by simp; omega)
      rcases Nat.lt_or_ge i 24 with hi24 | hi24
      · obtain ⟨j, rfl⟩ : ∃ j, i = 8 + j := ⟨i - 8, by omega⟩
        rw [← byte_of_sin6Addr a (by omega), ← byte_of_sin6Addr b (by omega), hsin6]
      · exact hflow i (by simp; omega)
    · simp only [if_neg h4, if_neg h6]

/-! ### Building addresses -/

namespace SockAddr

/-- `Address::Address()`: `memset` clears `sizeof(addr_)` bytes, the 16 of a `sockaddr`; the last
12 bytes of the union keep what the memory held, `rest`. -/
def new (rest : List UInt8) (h : rest.length = 12) : SockAddr :=
  ⟨List.replicate 16 0 ++ rest, by simp [h]⟩

/-- `Address::init(const sockaddr_in*)`: the 16 bytes of the `sockaddr_in` replace the first 16 of
the union. -/
def initIn (a : SockAddr) (addr : List UInt8) (h : addr.length = 16) : SockAddr :=
  ⟨addr ++ a.bytes.drop 16, by simp [h, a.length_bytes]⟩

/-- `Address::init(const sockaddr_in6*)`: the `sockaddr_in6` replaces the whole union. -/
def initIn6 (_a : SockAddr) (addr : SockAddr) : SockAddr := addr

/-- `Address::init(const sockaddr*)`, from the 28 bytes the pointer reaches: the copy is as long as
the structure of its family, and an address of another family is refused and changes
nothing. -/
def init (a : SockAddr) (addr : SockAddr) : Option SockAddr :=
  if addr.family = afInet then some (a.initIn (addr.bytes.take 16) (by simp [addr.length_bytes]))
  else if addr.family = afInet6 then some (a.initIn6 addr)
  else none

end SockAddr

/-- The two bytes of `htons(port)`, in memory order. -/
def htonsBytes (port : Nat) : List UInt8 :=
  [UInt8.ofNat (port / 256 % 256), UInt8.ofNat (port % 256)]

/-- A `sockaddr_in` laid out: the family `AF_INET`, the port in network order, the address, and
`sin_zero` zero. `Address::from_string` and `Address::from_inet` pass `init` the one that libuv's
`uv_ip4_addr` fills in a cleared structure. -/
def sockaddrIn (addr : Vector UInt8 4) (port : Nat) : List UInt8 :=
  [2, 0] ++ htonsBytes port ++ addr.toList ++ List.replicate 8 0

/-- A `sockaddr_in6` laid out: the family `AF_INET6`, the port in network order, a flow label of
zero, the address and `sin6_scope_id`. `Address::from_string` and `Address::from_inet` pass
`init` the one that libuv's `uv_ip6_addr` fills, with the interface index of a `%zone` suffix as
the scope id. -/
def sockaddrIn6 (addr : Vector UInt8 16) (port : Nat) (scopeId : Nat) : SockAddr :=
  ⟨[10, 0] ++ htonsBytes port ++ [0, 0, 0, 0] ++ addr.toList ++
    [UInt8.ofNat scopeId, UInt8.ofNat (scopeId / 256), UInt8.ofNat (scopeId / 65536),
      UInt8.ofNat (scopeId / 16777216)], by simp [htonsBytes]⟩

theorem length_sockaddrIn (addr : Vector UInt8 4) (port : Nat) :
    (sockaddrIn addr port).length = 16 := by
  simp [sockaddrIn, htonsBytes]

theorem byte_initIn (a : SockAddr) {addr : List UInt8} (h : addr.length = 16) {i : Nat}
    (hi : i < 16) : (a.initIn addr h).byte i = (addr.getD i 0).toNat := by
  simp only [SockAddr.initIn, SockAddr.byte]
  rw [List.getD_append _ _ _ _ (h ▸ hi)]

theorem getD_sockaddrIn_zero (addr : Vector UInt8 4) (port : Nat) {i : Nat} (hi : 8 ≤ i)
    (hi' : i < 16) : (sockaddrIn addr port).getD i 0 = 0 := by
  have hlen : ([2, 0] ++ htonsBytes port ++ addr.toList).length = 8 := by simp [htonsBytes]
  rw [sockaddrIn, List.getD_append_right _ _ _ _ (by omega), hlen]
  simp only [List.getD_eq_getElem?_getD, List.getElem?_replicate]
  split <;> rfl

/-- An IPv4 address made by `from_string` or `from_inet` has a cleared `sin_zero`. -/
theorem unread_initIn_sockaddrIn (a : SockAddr) (addr : Vector UInt8 4) (port : Nat) :
    (a.initIn (sockaddrIn addr port) (length_sockaddrIn addr port)).unread = List.replicate 8 0 := by
  have hfam : (a.initIn (sockaddrIn addr port) (length_sockaddrIn addr port)).family = afInet := by
    simp [SockAddr.family, byte_initIn, sockaddrIn, afInet]
  rw [SockAddr.unread, if_pos hfam, List.eq_replicate_iff]
  refine ⟨by simp, fun x hx => ?_⟩
  obtain ⟨i, hi, rfl⟩ := List.mem_map.mp hx
  obtain ⟨hi8, hi16⟩ := List.mem_range'_1.mp hi
  rw [byte_initIn _ _ (by omega), getD_sockaddrIn_zero addr port hi8 (by omega)]
  rfl

/-- Two IPv4 addresses made by `from_string` or `from_inet` that `operator==` identifies hash
alike. -/
theorem addressHash_sockaddrIn_of_eq {a b : SockAddr} {x y : Vector UInt8 4} {p q : Nat}
    (h : (a.initIn (sockaddrIn x p) (length_sockaddrIn x p)).eq
      (b.initIn (sockaddrIn y q) (length_sockaddrIn y q))) :
    addressHash (a.initIn (sockaddrIn x p) (length_sockaddrIn x p)) =
      addressHash (b.initIn (sockaddrIn y q) (length_sockaddrIn y q)) :=
  addressHash_eq_of_eq h (by rw [unread_initIn_sockaddrIn, unread_initIn_sockaddrIn])

/-- `Address::from_string("fe80::1%lo", 9042)` and `Address::from_string("fe80::1", 9042)` on fresh
addresses: the zone suffix sets `sin6_scope_id` to the index of `lo`, `1`. `operator==` identifies
the two, and `AddressHash` tells them apart. -/
theorem addressHash_scopeId :
    let a : SockAddr := (SockAddr.new (List.replicate 12 0) rfl).initIn6
      (sockaddrIn6 #v[0xfe, 0x80, 0, 0, 0, 0, 0, 0, 0, 0, 0, 0, 0, 0, 0, 1] 9042 1)
    let b : SockAddr := (SockAddr.new (List.replicate 12 0) rfl).initIn6
      (sockaddrIn6 #v[0xfe, 0x80, 0, 0, 0, 0, 0, 0, 0, 0, 0, 0, 0, 0, 0, 1] 9042 0)
    a.eq b ∧ addressHash a ≠ addressHash b := by
  decide

end CassandraDriver
