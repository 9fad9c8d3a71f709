import CassandraDriver.Ssl.HostCheck

/-!
# Peer identity of TLS connections

`OpenSslVerifyIdentity` of `ssl_openssl_impl.cpp` decides whether a peer certificate names the
host it came from. `match` looks for the host's address among the `iPAddress` entries of the
subjectAltName extension, and, when the certificate has no such extension, among the
`commonName` entries of the subject name; `match_dns` does the same with `dNSName` entries and
the host name, compared by `Curl_cert_hostcheck`. In every loop the first malformed entry gives
`INVALID_CERT` and the first matching one `MATCH`.

The common-name loops walk the subject with OpenSSL's `X509_NAME_get_index_by_NID` from `-1`
while the index found is `> 0`. That function is not part of the driver: the model takes it as a
parameter, and the results that need it assume what OpenSSL documents of it
(`IndexByNidDocumented`). The first entry of a subject has index `0`: when it is a `commonName`,
the loop stops before looking at any entry, so a certificate whose subject is a lone common name
never matches (`matchCommonName_eq`).
-/

namespace CassandraDriver

/-- `Address`: an IPv4 or IPv6 socket address, or one of another family. -/
inductive Address
  | ipv4 (addr : Vector UInt8 4)
  | ipv6 (addr : Vector UInt8 16)
  | unspec
  deriving DecidableEq

/-- `Address::to_inet`: the bytes of the address, none for another family. -/
def Address.toInet : Address → List UInt8
  | .ipv4 addr => addr.toList
  | .ipv6 addr => addr.toList
  | .unspec => []

/-- What the checks read of a `Host`: its address, `address_string()` and `hostname()`. -/
structure SslHost where
  address : Address
  addressString : List UInt8
  hostname : List UInt8

/-- The attribute type of an entry of a subject name. -/
inductive Nid
  | commonName
  | other (nid : Nat)
  deriving DecidableEq

/-- `X509_NAME_ENTRY`: its attribute type and its data, `none` for a null `ASN1_STRING`. -/
structure X509NameEntry where
  nid : Nid
  data : Option (List UInt8)
  deriving DecidableEq

/-- `GENERAL_NAME` of a subjectAltName extension, with the data of the two kinds the checks
read. -/
inductive GeneralName
  | ipAddress (data : Option (List UInt8))
  | dnsName (data : Option (List UInt8))
  | other
  deriving DecidableEq

/-- `X509`: the entries of the subject name, and the general names of the subjectAltName
extension, `none` when `X509_get_ext_d2i` finds no extension. -/
structure X509 where
  subjectName : List X509NameEntry
  subjectAltNames : Option (List GeneralName)
  deriving DecidableEq

/-- What OpenSSL documents of `X509_NAME_get_index_by_NID(name, nid, lastpos)`: from a
`lastpos` of `-1` or more, the index of the next entry after `lastpos` with the attribute type
`nid`, and `-1` when there are no more. -/
def IndexByNidDocumented (getIndexByNid : List X509NameEntry → Nid → Int → Int) : Prop :=
  ∀ entries nid (lastpos : Int), -1 ≤ lastpos →
    getIndexByNid entries nid lastpos =
      match (entries.drop (lastpos + 1).toNat).findIdx? (·.nid = nid) with
      | some k => lastpos + 1 + k
      | none => -1

namespace OpenSslVerifyIdentity

/-- `OpenSslVerifyIdentity::Result`; `MATCH` is `matched`, `match` being a keyword. -/
inductive Result
  | invalidCert
  | matched
  | noMatch
  | noSanPresent
  deriving DecidableEq, Repr

/-- The loops over entries: the first entry the check finds malformed (`none`) gives
`INVALID_CERT`, the first it finds matching `MATCH`, and `NO_MATCH` when there is neither. -/
def examine {β : Type} (check : β → Option Bool) : List β → Result
  | [] => .noMatch
  | entry :: entries =>
    match check entry with
    | none => .invalidCert
    | some true => .matched
    | some false => examine check entries

/-! ### The subject name -/

/-- What the common-name loops make of an entry: `none` for a null string or one with a NUL
inside, otherwise whether its text matches. -/
def checkCommonName (isMatch : CString → Bool) (entry : X509NameEntry) : Option Bool :=
  match entry.data with
  | none => none
  | some data =>
    if (CString.ofBytes data).strlen ≠ data.length then none
    else some (isMatch (CString.ofBytes data))

section GetIndexByNid

/-! The common-name checks, and the checks that fall back on them, call
`X509_NAME_get_index_by_NID`. -/

variable (getIndexByNid : List X509NameEntry → Nid → Int → Int)

/-- The loop of `match_common_name_ipaddr` and `match_common_name_dns` from `lastpos` `i`;
`fuel` bounds its rounds, and the subject's length and one more are enough. -/
def commonNameLoop (isMatch : CString → Bool) (entries : List X509NameEntry) :
    Nat → Int → Result
  | 0, _ => .noMatch
  | fuel + 1, i =>
    let i := getIndexByNid entries .commonName i
    if i > 0 then
      match entries[i.toNat]? with
      | none => .invalidCert
      | some entry =>
        match checkCommonName isMatch entry with
        | none => .invalidCert
        | some true => .matched
        | some false => commonNameLoop isMatch entries fuel i
    else .noMatch

/-- The common-name check with a comparison of the text. -/
def matchCommonName (isMatch : CString → Bool) (cert : X509) : Result :=
  commonNameLoop getIndexByNid isMatch cert.subjectName (cert.subjectName.length + 1) (-1)

/-- `match_common_name_ipaddr`: the text equals the address string. -/
def matchCommonNameIpaddr (cert : X509) (address : List UInt8) : Result :=
  matchCommonName getIndexByNid (fun commonName => decide (address = commonName.chars)) cert

/-- `match_common_name_dns`: the text names the host by `Curl_cert_hostcheck`. -/
def matchCommonNameDns (cert : X509) (hostname : List UInt8) : Result :=
  matchCommonName getIndexByNid
    (fun commonName => Curl.certHostcheck commonName (CString.ofBytes hostname)) cert

end GetIndexByNid

/-! ### The subjectAltName extension -/

/-- What `match_subject_alt_names_ipadd` makes of a general name: an `iPAddress` entry is
malformed when null or neither 4 nor 16 bytes long, and matches when it holds the address
bytes; other kinds are passed over. -/
def checkIpAddress (addrBuf : List UInt8) : GeneralName → Option Bool
  | .ipAddress none => none
  | .ipAddress (some ip) =>
    if ip.length ≠ 4 ∧ ip.length ≠ 16 then none
    else some (decide (ip.length = addrBuf.length ∧ ip = addrBuf))
  | _ => some false

/-- What `match_subject_alt_names_dns` makes of a general name. -/
def checkDnsName (hostname : CString) : GeneralName → Option Bool
  | .dnsName none => none
  | .dnsName (some data) =>
    if (CString.ofBytes data).strlen ≠ data.length then none
    else some (Curl.certHostcheck (CString.ofBytes data) hostname)
  | _ => some false

/-- `match_subject_alt_names_ipadd` -/
def matchSubjectAltNamesIpadd (cert : X509) (addr : Address) : Result :=
  let addrBuf := addr.toInet
  if addrBuf.length = 0 then .noMatch
  else
    match cert.subjectAltNames with
    | none => .noSanPresent
    | some names => examine (checkIpAddress addrBuf) names

/-- `match_subject_alt_names_dns` -/
def matchSubjectAltNamesDns (cert : X509) (hostname : List UInt8) : Result :=
  match cert.subjectAltNames with
  | none => .noSanPresent
  | some names => examine (checkDnsName (CString.ofBytes hostname)) names

/-- `OpenSslVerifyIdentity::match` (`match` is a keyword). -/
def matchIp (getIndexByNid : List X509NameEntry → Nid → Int → Int) (cert : X509)
    (host : SslHost) : Result :=
  let result := matchSubjectAltNamesIpadd cert host.address
  if result = .noSanPresent then matchCommonNameIpaddr getIndexByNid cert host.addressString
  else result

/-- `OpenSslVerifyIdentity::match_dns` -/
def matchDns (getIndexByNid : List X509NameEntry → Nid → Int → Int) (cert : X509)
    (host : SslHost) : Result :=
  let result := matchSubjectAltNamesDns cert host.hostname
  if result = .noSanPresent then matchCommonNameDns getIndexByNid cert host.hostname else result

end OpenSslVerifyIdentity

/-! ### `OpenSslSession::verify` -/

/-- The errors `verify` records: `CASS_ERROR_SSL_NO_PEER_CERT`,
`CASS_ERROR_SSL_INVALID_PEER_CERT` and `CASS_ERROR_SSL_IDENTITY_MISMATCH`. -/
inductive SslError
  | noPeerCert
  | invalidPeerCert
  | identityMismatch
  deriving DecidableEq, Repr

/-- `CASS_SSL_VERIFY_PEER_CERT` -/
def cassSslVerifyPeerCert : Nat := 0x01

/-- `CASS_SSL_VERIFY_PEER_IDENTITY` -/
def cassSslVerifyPeerIdentity : Nat := 0x02

/-- `CASS_SSL_VERIFY_PEER_IDENTITY_DNS` -/
def cassSslVerifyPeerIdentityDns : Nat := 0x04

namespace OpenSslSession

open OpenSslVerifyIdentity

/-- The error and message of the identity checks' result, `none` on `MATCH`. -/
def identityError : Result → Option (SslError × String)
  | .matched => none
  | .invalidCert => some (.invalidPeerCert, "Peer certificate has malformed name field(s)")
  | _ => some (.identityMismatch, "Peer certificate subject name does not match")

section GetIndexByNid

variable (getIndexByNid : List X509NameEntry → Nid → Int → Int)

/-- The identity part of `verify`: by address, or else by host name. -/
def verifyIdentity (verifyFlags : Nat) (host : SslHost) (cert : X509) :
    Option (SslError × String) :=
  if verifyFlags &&& cassSslVerifyPeerIdentity ≠ 0 then
    identityError (matchIp getIndexByNid cert host)
  else if verifyFlags &&& cassSslVerifyPeerIdentityDns ≠ 0 then
    identityError (matchDns getIndexByNid cert host)
  else none

/-- `OpenSslSession::verify`: the error code and message it records, `none` when the peer
passes. `verifyResult` is the text of `SSL_get_verify_result`, `none` for `X509_V_OK`. -/
def verify (verifyFlags : Nat) (host : SslHost) (peerCert : Option X509)
    (verifyResult : Option String) : Option (SslError × String) :=
  if verifyFlags = 0 then none
  else
    match peerCert with
    | none => some (.noPeerCert, "No peer certificate found")
    | some cert =>
      match verifyResult with
      | some text =>
        if verifyFlags &&& cassSslVerifyPeerCert ≠ 0 then some (.invalidPeerCert, text)
        else verifyIdentity getIndexByNid verifyFlags host cert
      | none => verifyIdentity getIndexByNid verifyFlags host cert

end GetIndexByNid

end OpenSslSession

/-! ### Loops over entries -/

namespace OpenSslVerifyIdentity

section Examine

variable {β : Type} (check : β → Option Bool)

@[simp] lemma examine_nil : examine check [] = .noMatch := rfl

/-- Entries the check passes over do not change the outcome. -/
lemma examine_append_of_forall {l₁ : List β} (hpass : ∀ x ∈ l₁, check x = some false)
    (l₂ : List β) : examine check (l₁ ++ l₂) = examine check l₂ := by
  induction l₁ with
  | nil => rfl
  | cons x xs ih =>
    rw [List.cons_append, examine, hpass x List.mem_cons_self]
    exact ih fun y hy => hpass y (List.mem_cons_of_mem _ hy)

lemma examine_eq_noMatch_of_forall {l : List β} (hpass : ∀ x ∈ l, check x = some false) :
    examine check l = .noMatch := by
  simpa using examine_append_of_forall check hpass []

/-- An outcome other than `NO_MATCH` comes from the first entry the check does not pass over. -/
lemma exists_of_examine_ne_noMatch {l : List β} (h : examine check l ≠ .noMatch) :
    ∃ l₁ x l₂, l = l₁ ++ x :: l₂ ∧ (∀ y ∈ l₁, check y = some false) ∧ check x ≠ some false := by
  induction l with
  | nil => exact absurd rfl h
  | cons x xs ih =>
    by_cases hx : check x = some false
    · have hxs : examine check xs ≠ .noMatch := by rwa [examine, hx] at h
      obtain ⟨l₁, y, l₂, rfl, hpass, hy⟩ := ih hxs
      refine ⟨x :: l₁, y, l₂, rfl, ?_, hy⟩
      rintro z (_ | ⟨_, hz⟩)
      · exact hx
      · exact hpass z hz
    · exact ⟨[], x, xs, rfl, by simp, hx⟩

/-- `MATCH` exactly when some entry matches and every entry before it is passed over. -/
theorem examine_eq_matched_iff (l : List β) :
    examine check l = .matched ↔
      ∃ l₁ x l₂, l = l₁ ++ x :: l₂ ∧ (∀ y ∈ l₁, check y = some false) ∧ check x = some true := by
  constructor
  · intro h
    obtain ⟨l₁, x, l₂, rfl, hpass, hx⟩ := exists_of_examine_ne_noMatch check (by rw [h]; decide)
    rw [examine_append_of_forall check hpass, examine] at h
    refine ⟨l₁, x, l₂, rfl, hpass, ?_⟩
    revert h hx
    rcases check x with _ | _ | _ <;> simp
  · rintro ⟨l₁, x, l₂, rfl, hpass, hx⟩
    rw [examine_append_of_forall check hpass, examine, hx]

/-- `INVALID_CERT` exactly when some entry is malformed and every entry before it is passed
over. -/
theorem examine_eq_invalidCert_iff (l : List β) :
    examine check l = .invalidCert ↔
      ∃ l₁ x l₂, l = l₁ ++ x :: l₂ ∧ (∀ y ∈ l₁, check y = some false) ∧ check x = none := by
  constructor
  · intro h
    obtain ⟨l₁, x, l₂, rfl, hpass, hx⟩ := exists_of_examine_ne_noMatch check (by rw [h]; decide)
    rw [examine_append_of_forall check hpass, examine] at h
    refine ⟨l₁, x, l₂, rfl, hpass, ?_⟩
    revert h hx
    rcases check x with _ | _ | _ <;> simp
  · rintro ⟨l₁, x, l₂, rfl, hpass, hx⟩
    rw [examine_append_of_forall check hpass, examine, hx]

lemma examine_ne_noSanPresent (l : List β) : examine check l ≠ .noSanPresent := by
  induction l with
  | nil => simp
  | cons x xs ih =>
    unfold examine
    split
    · decide
    · decide
    · exact ih

end Examine

/-! ### The common-name loop -/

/-- What a common-name check should make of each entry of the subject: the entries of other
attribute types are passed over. -/
def checkSubjectEntry (isMatch : CString → Bool) (entry : X509NameEntry) : Option Bool :=
  if entry.nid = .commonName then checkCommonName isMatch entry else some false

section CommonNameLoop

variable (isMatch : CString → Bool) {getIndexByNid : List X509NameEntry → Nid → Int → Int}

/-- A part of the subject without common names is passed over. -/
lemma examine_of_findIdx?_eq_none {l : List X509NameEntry}
    (h : l.findIdx? (·.nid = .commonName) = none) :
    examine (checkSubjectEntry isMatch) l = .noMatch := by
  apply examine_eq_noMatch_of_forall
  intro x hx
  have hx' : x.nid ≠ .commonName := by simpa using List.findIdx?_eq_none_iff.mp h x hx
  simp [checkSubjectEntry, hx']

/-- Examining a part of the subject starts at its first common name. -/
lemma examine_of_findIdx?_eq_some {l : List X509NameEntry} {k : Nat}
    (h : l.findIdx? (·.nid = .commonName) = some k) (hk : k < l.length) :
    examine (checkSubjectEntry isMatch) l =
      match checkCommonName isMatch l[k] with
      | none => .invalidCert
      | some true => .matched
      | some false => examine (checkSubjectEntry isMatch) (l.drop (k + 1)) := by
  obtain ⟨hk', hcn, hbefore⟩ := List.findIdx?_eq_some_iff_getElem.mp h
  have hpass : ∀ y ∈ l.take k, checkSubjectEntry isMatch y = some false := by
    intro y hy
    obtain ⟨j, hj, rfl⟩ := List.mem_take_iff_getElem.mp hy
    have hnid : l[j].nid ≠ .commonName := by simpa using hbefore j (by omega)
    simp [checkSubjectEntry, hnid]
  conv =>
    lhs
    rw [← List.take_append_drop k l, List.drop_eq_getElem_cons hk,
      examine_append_of_forall _ hpass, examine]
  simp only [checkSubjectEntry, decide_eq_true_eq] at hcn ⊢
  rw [if_pos hcn]

/-- From `lastpos` `i`, with fuel for every entry after `i`, the loop examines the common names
after `i`; but from `-1` it stops at once when the first entry is a common name, since the
index `0` fails the test `> 0`. -/
theorem commonNameLoop_eq (hdoc : IndexByNidDocumented getIndexByNid)
    (entries : List X509NameEntry) {i : Int} (hi : -1 ≤ i) {fuel : Nat}
    (hfuel : (entries.drop (i + 1).toNat).length < fuel) :
    commonNameLoop getIndexByNid isMatch entries fuel i =
      if i = -1 ∧ entries.head?.map (·.nid) = some .commonName then .noMatch
      else examine (checkSubjectEntry isMatch) (entries.drop (i + 1).toNat) := by
  -- induction on the fuel, from any `lastpos`: each round moves `lastpos` to the common name found
  induction fuel generalizing i with
  | zero => omega
  | succ fuel ih =>
    cases hfind : (entries.drop (i + 1).toNat).findIdx? (·.nid = .commonName) with
    | none =>
      have hindex : getIndexByNid entries .commonName i = -1 := by
        rw [hdoc entries .commonName i hi, hfind]
      rw [commonNameLoop, hindex, examine_of_findIdx?_eq_none isMatch hfind]
      simp
    | some k =>
      obtain ⟨hk, hcn, hbefore⟩ := List.findIdx?_eq_some_iff_getElem.mp hfind
      have hindex : getIndexByNid entries .commonName i = i + 1 + k := by
        rw [hdoc entries .commonName i hi, hfind]
      by_cases hpos : i + 1 + k > 0
      · -- the loop reads the common name found, and goes on from it
        have hentry : entries[(i + 1 + k).toNat]? = some (entries.drop (i + 1).toNat)[k] := by
          rw [← List.getElem?_eq_getElem hk, List.getElem?_drop]
          congr 1
          omega
        have hnot : ¬(i = -1 ∧ entries.head?.map (·.nid) = some .commonName) := by
          rintro ⟨rfl, hhead⟩
          have hfirst := hbefore 0 (by omega)
          simp only [Int.reduceNeg, Int.reduceAdd, Int.toNat_zero, List.drop_zero,
            decide_eq_true_eq] at hfirst hk
          cases entries with
          | nil => simp at hk
          | cons e es => exact hfirst (by simpa using hhead)
        have hdrop :
            entries.drop (i + 1 + k + 1).toNat = (entries.drop (i + 1).toNat).drop (k + 1) := by
          rw [List.drop_drop]
          congr 1
          omega
        have hrest := ih (i := i + 1 + k) (by omega) (by rw [hdrop, List.length_drop]; omega)
        rw [commonNameLoop, hindex, if_pos hpos, hentry, if_neg hnot,
          examine_of_findIdx?_eq_some isMatch hfind hk]
        simp only [hrest, hdrop, show ¬(i + 1 + k = -1) by omega, false_and, if_false]
      · -- from `-1`, the first entry is the common name: the loop stops before reading it
        have hi1 : i = -1 := by omega
        have hk0 : k = 0 := by omega
        subst hi1 hk0
        have hhead : entries.head?.map (·.nid) = some .commonName := by
          simp only [Int.reduceNeg, Int.reduceAdd, Int.toNat_zero, List.drop_zero,
            decide_eq_true_eq] at hcn hk
          cases entries with
          | nil => simp at hk
          | cons e es => simpa using hcn
        rw [commonNameLoop, hindex, if_neg hpos, if_pos ⟨rfl, hhead⟩]

/-- The common-name check examines every common name of the subject, unless the subject starts
with one: then it examines none and finds no match. -/
theorem matchCommonName_eq (hdoc : IndexByNidDocumented getIndexByNid) (cert : X509) :
    matchCommonName getIndexByNid isMatch cert =
      if cert.subjectName.head?.map (·.nid) = some .commonName then .noMatch
      else examine (checkSubjectEntry isMatch) cert.subjectName := by
  rw [matchCommonName,
    commonNameLoop_eq isMatch hdoc cert.subjectName (Int.le_refl (-1)) (by simp)]
  simp

end CommonNameLoop

end OpenSslVerifyIdentity

/-! ### `match`, `match_dns` and `verify` -/

namespace OpenSslVerifyIdentity

/-- `match` of a host with an IPv4 or IPv6 address: the `iPAddress` entries decide when the
certificate has a subjectAltName extension, the common names when it has none. -/
theorem matchIp_eq (getIndexByNid : List X509NameEntry → Nid → Int → Int) (cert : X509)
    (host : SslHost) (haddr : host.address.toInet ≠ []) :
    matchIp getIndexByNid cert host =
      match cert.subjectAltNames with
      | none => matchCommonNameIpaddr getIndexByNid cert host.addressString
      | some names => examine (checkIpAddress host.address.toInet) names := by
  have hlen : host.address.toInet.length ≠ 0 := fun h => haddr (List.length_eq_zero_iff.mp h)
  unfold matchIp matchSubjectAltNamesIpadd
  cases hsan : cert.subjectAltNames with
  | none => simp [hlen]
  | some names => simp [hlen, examine_ne_noSanPresent]

/-- `match_dns`: the `dNSName` entries decide when the certificate has a subjectAltName
extension, the common names when it has none. -/
theorem matchDns_eq (getIndexByNid : List X509NameEntry → Nid → Int → Int) (cert : X509)
    (host : SslHost) :
    matchDns getIndexByNid cert host =
      match cert.subjectAltNames with
      | none => matchCommonNameDns getIndexByNid cert host.hostname
      | some names => examine (checkDnsName (CString.ofBytes host.hostname)) names := by
  unfold matchDns matchSubjectAltNamesDns
  cases hsan : cert.subjectAltNames with
  | none => simp
  | some names => simp [examine_ne_noSanPresent]

end OpenSslVerifyIdentity

namespace OpenSslSession

open OpenSslVerifyIdentity

lemma identityError_eq_none_iff (result : Result) :
    identityError result = none ↔ result = .matched := by
  cases result <;> simp [identityError]

/-- With `CASS_SSL_VERIFY_PEER_IDENTITY`, a peer whose certificate is there and passes the
chain check when that is asked for is accepted exactly when `match` finds a `MATCH`. -/
theorem verify_eq_none_iff_matchIp (getIndexByNid : List X509NameEntry → Nid → Int → Int)
    {verifyFlags : Nat} (host : SslHost) (cert : X509)
    {verifyResult : Option String} (hidentity : verifyFlags &&& cassSslVerifyPeerIdentity ≠ 0)
    (hchain : verifyResult = none ∨ verifyFlags &&& cassSslVerifyPeerCert = 0) :
    verify getIndexByNid verifyFlags host (some cert) verifyResult = none ↔
      matchIp getIndexByNid cert host = .matched := by
  have hflags : verifyFlags ≠ 0 := by
    rintro rfl
    exact hidentity rfl
  have hidentity_eq : verifyIdentity getIndexByNid verifyFlags host cert =
      identityError (matchIp getIndexByNid cert host) := by
    rw [verifyIdentity, if_pos hidentity]
  rw [← identityError_eq_none_iff, ← hidentity_eq]
  rcases hchain with rfl | hpeer
  · simp [verify, hflags]
  · cases verifyResult <;> simp [verify, hflags, hpeer]

/-- A certificate whose subject is the common name "10.0.0.1" alone, without a subjectAltName
extension, does not match the host 10.0.0.1, and `verify` reports an identity mismatch, with any
`X509_NAME_get_index_by_NID` that does what OpenSSL documents. -/
theorem verify_loneCommonName (getIndexByNid : List X509NameEntry → Nid → Int → Int)
    (hdoc : IndexByNidDocumented getIndexByNid) :
    let cert : X509 := ⟨[⟨.commonName, some [49, 48, 46, 48, 46, 48, 46, 49]⟩], none⟩
    let host : SslHost := ⟨.ipv4 #v[10, 0, 0, 1], [49, 48, 46, 48, 46, 48, 46, 49], []⟩
    (∃ entry ∈ cert.subjectName, entry.nid = .commonName ∧ entry.data = some host.addressString) ∧
      cert.subjectAltNames = none ∧ matchIp getIndexByNid cert host = .noMatch ∧
      verify getIndexByNid cassSslVerifyPeerIdentity host (some cert) none =
        some (.identityMismatch, "Peer certificate subject name does not match") := by
  intro cert host
  -- no extension, so the common names decide; the subject starts with one, so none is read
  have hmatch : matchIp getIndexByNid cert host = .noMatch := by
    rw [matchIp_eq getIndexByNid cert host (by decide)]
    exact (matchCommonName_eq _ hdoc cert).trans (if_pos rfl)
  refine ⟨⟨_, List.mem_singleton_self _, rfl, rfl⟩, rfl, hmatch, ?_⟩
  simp [verify, verifyIdentity, cassSslVerifyPeerIdentity, hmatch, identityError]

/-- An `X509_NAME_get_index_by_NID` that does what OpenSSL documents: it counts from the entry
after `lastpos` to the next one of the attribute type. -/
def nextIndexByNid (entries : List X509NameEntry) (nid : Nid) (lastpos : Int) : Int :=
  match (entries.drop (lastpos + 1).toNat).findIdx? (·.nid = nid) with
  | some k => lastpos + 1 + k
  | none => -1

theorem verify_loneCommonName_nextIndexByNid :
    IndexByNidDocumented nextIndexByNid ∧
      let cert : X509 := ⟨[⟨.commonName, some [49, 48, 46, 48, 46, 48, 46, 49]⟩], none⟩
      let host : SslHost := ⟨.ipv4 #v[10, 0, 0, 1], [49, 48, 46, 48, 46, 48, 46, 49], []⟩
      (∃ entry ∈ cert.subjectName, entry.nid = .commonName ∧
          entry.data = some host.addressString) ∧
        cert.subjectAltNames = none ∧ matchIp nextIndexByNid cert host = .noMatch ∧
        verify nextIndexByNid cassSslVerifyPeerIdentity host (some cert) none =
          some (.identityMismatch, "Peer certificate subject name does not match") :=
  have hdoc : IndexByNidDocumented nextIndexByNid := fun _ _ _ _ => rfl
  ⟨hdoc, verify_loneCommonName nextIndexByNid hdoc⟩

end OpenSslSession

/-! ### What `match_dns` accepts -/

namespace OpenSslVerifyIdentity

/-- With an `X509_NAME_get_index_by_NID` that does what OpenSSL documents, `match_dns` finds a
`MATCH` exactly when the certificate has a subjectAltName extension in which a `dNSName` entry
names the host, every entry before it well formed and not naming it; or when it has no extension,
its subject does not start with a common name, and a common name of the subject names the host,
every common name before it well formed and not naming it. -/
theorem matchDns_eq_matched_iff {getIndexByNid : List X509NameEntry → Nid → Int → Int}
    (hdoc : IndexByNidDocumented getIndexByNid) (cert : X509) (host : SslHost) :
    matchDns getIndexByNid cert host = .matched ↔
      (∃ names, cert.subjectAltNames = some names ∧ ∃ l₁ x l₂, names = l₁ ++ x :: l₂ ∧
        (∀ y ∈ l₁, checkDnsName (CString.ofBytes host.hostname) y = some false) ∧
        checkDnsName (CString.ofBytes host.hostname) x = some true) ∨
      (cert.subjectAltNames = none ∧ cert.subjectName.head?.map (·.nid) ≠ some .commonName ∧
        ∃ l₁ x l₂, cert.subjectName = l₁ ++ x :: l₂ ∧
          (∀ y ∈ l₁, checkSubjectEntry
            (Curl.certHostcheck · (CString.ofBytes host.hostname)) y = some false) ∧
          checkSubjectEntry (Curl.certHostcheck · (CString.ofBytes host.hostname)) x =
            some true) := by
  rw [matchDns_eq]
  cases hsan : cert.subjectAltNames with
  | some names =>
    -- the extension decides, whatever the subject holds
    simp only [examine_eq_matched_iff, Option.some.injEq, exists_eq_left', reduceCtorEq,
      false_and, or_false]
  | none =>
    -- no extension: the common names decide, unless the subject starts with one
    rw [matchCommonNameDns, matchCommonName_eq _ hdoc]
    simp only [reduceCtorEq, false_and, exists_false, true_and, false_or]
    split_ifs with hhead
    · simp only [false_iff, not_and]
      exact fun h => absurd hhead h
    · rw [examine_eq_matched_iff]
      exact ⟨fun h => ⟨hhead, h⟩, fun h => h.2⟩

end OpenSslVerifyIdentity

namespace OpenSslSession

open OpenSslVerifyIdentity

/-- A certificate without a subjectAltName extension whose subject is a country, then the
common name "db": `match_dns` finds the host "db". -/
theorem matchDns_eq_matched_iff_countryThenCommonName :
    IndexByNidDocumented nextIndexByNid ∧
      let cert : X509 := ⟨[⟨.other 6, some [85, 83]⟩, ⟨.commonName, some [100, 98]⟩], none⟩
      let host : SslHost := ⟨.ipv4 #v[10, 0, 0, 1], [], [100, 98]⟩
      matchDns nextIndexByNid cert host = .matched ∧
        (matchDns nextIndexByNid cert host = .matched ↔
          (∃ names, cert.subjectAltNames = some names ∧ ∃ l₁ x l₂, names = l₁ ++ x :: l₂ ∧
            (∀ y ∈ l₁, checkDnsName (CString.ofBytes host.hostname) y = some false) ∧
            checkDnsName (CString.ofBytes host.hostname) x = some true) ∨
          (cert.subjectAltNames = none ∧ cert.subjectName.head?.map (·.nid) ≠ some .commonName ∧
            ∃ l₁ x l₂, cert.subjectName = l₁ ++ x :: l₂ ∧
              (∀ y ∈ l₁, checkSubjectEntry
                (Curl.certHostcheck · (CString.ofBytes host.hostname)) y = some false) ∧
              checkSubjectEntry (Curl.certHostcheck · (CString.ofBytes host.hostname)) x =
                some true)) :=
  have hdoc : IndexByNidDocumented nextIndexByNid := fun _ _ _ _ => rfl
  ⟨hdoc, by decide, matchDns_eq_matched_iff hdoc _ _⟩

end OpenSslSession

end CassandraDriver
