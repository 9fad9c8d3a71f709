import Mathlib.Data.List.TakeWhile

/-!
# Host-name checks of certificates

`third_party/curl/hostcheck.cpp`: `Curl_cert_hostcheck(match_pattern, hostname)` compares a name
of a certificate with a host name, ASCII case ignored. A `*` in the first label of a pattern
with at least two dots, and not an internationalised `xn--` label, stands for a non-empty part
of the host's first label.

The functions work on C strings: the bytes before the terminating NUL, which is why a C string
here is a list of bytes without a zero.
-/

namespace CassandraDriver

/-- A C string: the bytes a `const char*` points to, up to the terminating NUL. -/
structure CString where
  chars : List UInt8
  no_nul : 0 ∉ chars
  deriving DecidableEq

namespace CString

/-- The C string a buffer holds: its bytes before the first NUL. -/
def ofBytes (bytes : List UInt8) : CString :=
  ⟨bytes.takeWhile (· ≠ 0), fun h => by simpa using List.mem_takeWhile_imp h⟩

/-- `strlen` -/
def strlen (s : CString) : Nat := s.chars.length

/-- A buffer is read whole exactly when it holds no NUL. -/
lemma ofBytes_chars_eq_iff (bytes : List UInt8) : (ofBytes bytes).chars = bytes ↔ 0 ∉ bytes := by
  rw [ofBytes, List.takeWhile_eq_self_iff]
  constructor
  · intro h h0
    simpa using h 0 h0
  · intro h x hx
    have : x ≠ 0 := fun hx0 => h (hx0 ▸ hx)
    simpa using this

/-- `strlen` of a buffer falls short of its length exactly when it holds a NUL. -/
lemma strlen_ofBytes_eq_length_iff (bytes : List UInt8) :
    (ofBytes bytes).strlen = bytes.length ↔ 0 ∉ bytes := by
  rw [← ofBytes_chars_eq_iff]
  constructor
  · intro hlen
    exact (List.takeWhile_prefix _).eq_of_length hlen
  · intro h
    rw [strlen, h]

end CString

namespace Curl

/-- `Curl_raw_toupper`: ASCII letters to upper case. -/
def rawToupper (c : UInt8) : UInt8 := if 97 ≤ c ∧ c ≤ 122 then c - 32 else c

/-- `Curl_raw_equal`, over the characters of two C strings. -/
def rawEqual : List UInt8 → List UInt8 → Bool
  | a :: as, b :: bs => if rawToupper a ≠ rawToupper b then false else rawEqual as bs
  | [], [] => true
  | [], b :: _ => rawToupper 0 == rawToupper b
  | a :: _, [] => rawToupper a == rawToupper 0

/-- `Curl_raw_nequal`: the first `max` characters agree. -/
def rawNequal : List UInt8 → List UInt8 → Nat → Bool
  | _, _, 0 => true
  | a :: as, b :: bs, max + 1 => if rawToupper a ≠ rawToupper b then false else rawNequal as bs max
  | [], [], _ + 1 => true
  | [], b :: _, _ + 1 => rawToupper 0 == rawToupper b
  | a :: _, [], _ + 1 => rawToupper a == rawToupper 0

/-- `strchr`: the position of the first `c`. -/
def strchr (s : List UInt8) (c : UInt8) : Option Nat := s.findIdx? (· = c)

/-- `hostmatch(hostname, pattern)`. -/
def hostmatch (hostname pattern : List UInt8) : Bool :=
  match strchr pattern 42 with  -- '*'
  | none => rawEqual pattern hostname
  | some patternWildcard =>
    -- at least two dots, the wildcard in the first label, and no `xn--` label
    match strchr pattern 46 with  -- '.'
    | none => rawEqual pattern hostname
    | some patternLabelEnd =>
      if (strchr (pattern.drop (patternLabelEnd + 1)) 46).isNone ∨
          patternWildcard > patternLabelEnd ∨ rawNequal pattern [120, 110, 45, 45] 4 then
        rawEqual pattern hostname
      else
        match strchr hostname 46 with
        | none => false
        | some hostnameLabelEnd =>
          if !rawEqual (pattern.drop patternLabelEnd) (hostname.drop hostnameLabelEnd) then false
          -- the wildcard matches at least one character
          else if hostnameLabelEnd < patternLabelEnd then false
          else
            let prefixlen := patternWildcard
            let suffixlen := patternLabelEnd - (patternWildcard + 1)
            rawNequal pattern hostname prefixlen &&
              rawNequal (pattern.drop (patternWildcard + 1))
                (hostname.drop (hostnameLabelEnd - suffixlen)) suffixlen

/-- `Curl_cert_hostcheck(match_pattern, hostname)`: an empty name matches nothing. -/
def certHostcheck (matchPattern hostname : CString) : Bool :=
  if matchPattern.chars = [] ∨ hostname.chars = [] then false
  else hostmatch hostname.chars matchPattern.chars

lemma rawToupper_eq_zero_iff (c : UInt8) : rawToupper c = 0 ↔ c = 0 := by
  unfold rawToupper
  split_ifs with h
  · -- a lower-case letter moves down by 32 and stays above 64
    have h97 : 97 ≤ c.toNat := UInt8.le_iff_toNat_le.mp h.1
    have h32 : (32 : UInt8) ≤ c := UInt8.le_iff_toNat_le.mpr (by change 32 ≤ c.toNat; omega)
    constructor
    · intro h0
      have := congrArg UInt8.toNat h0
      rw [UInt8.toNat_sub_of_le _ _ h32] at this
      change c.toNat - 32 = 0 at this
      omega
    · rintro rfl
      exact absurd h97 (by decide)
  · rfl

/-- Two C strings are `Curl_raw_equal` exactly when they agree with case ignored. -/
theorem rawEqual_iff {a b : List UInt8} (ha : 0 ∉ a) (hb : 0 ∉ b) :
    rawEqual a b = true ↔ a.map rawToupper = b.map rawToupper := by
  induction a generalizing b with
  | nil =>
    cases b with
    | nil => simp [rawEqual]
    | cons y ys =>
      have hy : rawToupper y ≠ rawToupper 0 := by
        rw [show rawToupper 0 = 0 from rfl, Ne, rawToupper_eq_zero_iff]
        exact fun h => hb (h ▸ List.mem_cons_self)
      simp [rawEqual, Ne.symm hy]
  | cons x xs ih =>
    cases b with
    | nil =>
      have hx : rawToupper x ≠ rawToupper 0 := by
        rw [show rawToupper 0 = 0 from rfl, Ne, rawToupper_eq_zero_iff]
        exact fun h => ha (h ▸ List.mem_cons_self)
      simp [rawEqual, hx]
    | cons y ys =>
      have hxs : 0 ∉ xs := fun h => ha (List.mem_cons_of_mem _ h)
      have hys : 0 ∉ ys := fun h => hb (List.mem_cons_of_mem _ h)
      by_cases hxy : rawToupper x = rawToupper y
      · simp [rawEqual, hxy, ih hxs hys]
      · simp [rawEqual, hxy]

/-- A pattern without `*` matches the host names equal to it with case ignored. -/
theorem certHostcheck_of_no_wildcard {matchPattern : CString} (hstar : 42 ∉ matchPattern.chars)
    (hostname : CString) :
    certHostcheck matchPattern hostname = true ↔
      matchPattern.chars ≠ [] ∧ hostname.chars ≠ [] ∧
        matchPattern.chars.map rawToupper = hostname.chars.map rawToupper := by
  have hnone : strchr matchPattern.chars 42 = none := by
    simpa [strchr, List.findIdx?_eq_none_iff] using fun x hx (h : x = 42) => hstar (h ▸ hx)
  unfold certHostcheck
  split_ifs with hempty
  · simp only [false_iff]
    rintro ⟨hpattern, hhost, -⟩
    exact hempty.elim hpattern hhost
  · have hpattern : matchPattern.chars ≠ [] := fun h => hempty (.inl h)
    have hhost : hostname.chars ≠ [] := fun h => hempty (.inr h)
    rw [hostmatch, hnone, rawEqual_iff matchPattern.no_nul hostname.no_nul]
    exact ⟨fun h => ⟨hpattern, hhost, h⟩, fun h => h.2.2⟩

-- "A.B" names the host "a.b"
example : certHostcheck ⟨[65, 46, 66], by decide⟩ ⟨[97, 46, 98], by decide⟩ = true := by decide

end Curl

end CassandraDriver
