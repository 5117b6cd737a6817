import VizorWallet.Contact.Completeness
import VizorWallet.Contact.Direct

/-!
# Honest responses are accepted

A request lives for five minutes. Whoever holds the seed of an identity signs a response to it,
with an address and a revision, and the response is accepted for as long as the request lives.

## Main definitions

* `createRequest`, `signResponse` — the two sides of the exchange.
* `IsRequest` — what a request says, whatever the time.

## Main results

* `parseRequest_eq_some` — a request is accepted in its window only.
* `response_round_trip` — a signed response is accepted until its request expires.
-/

namespace VizorWallet.Contact

open Json

section Exchange

variable (P : Packages)

def inspectRequest (network : Network) (requestJson : Bytes) (now : ℕ) : Except String Request :=
  orError (parseRequest P network requestJson now) "Invalid or expired contact request."

/-- The identity that a request expects, as it stands in the text. -/
def subjectValue (subjectIdentity : Option Bytes) : Value := subjectIdentity.elim .null .string

/-- The text of a request. -/
def requestValue (network : Network) (audience challenge : Bytes) (expiresAt : ℕ)
    (subjectIdentity : Option Bytes) : Value :=
  .array [text requestDomain, .string network.wireName, .string audience, .string challenge,
    .number expiresAt, subjectValue subjectIdentity]

/-- Ask for an endpoint; `seed` and `nonce` are what the random source returns. -/
def createRequest (seed nonce : Option (Fixed 32)) (network : Network)
    (subjectIdentity : Option Bytes) (now : ℕ) : Except String Request := do
  let expiresAt ← orError (futureLimit now) "Invalid contact request time."
  ensure (∀ subject ∈ subjectIdentity, (identity P subject).isSome) "Invalid contact identity."
  let seed ← orError seed "Contact randomness is unavailable."
  let audience := keyIdentity P seed
  let nonce ← orError nonce "Contact randomness is unavailable."
  let challenge := Base64Url.encode nonce.val
  let requestJson := (requestValue network audience challenge expiresAt subjectIdentity).print
  inspectRequest P network requestJson now

/-- The payload of a response. -/
def endpointValue (network : Network) (subject : Bytes) (request : Request)
    (sequence now expiry : ℕ) (address : Bytes) : Value :=
  .array [text endpointDomain, .string network.wireName, .string subject,
    .string request.audience, .string request.challenge, .number sequence, .number now,
    .number expiry, .string address]

/-- The text of a response. -/
def exchangeValue (payload : Bytes) (signature : Fixed 64) : Value :=
  .array [text exchangeDomain, .array [.string (Base64Url.encode payload),
    .string (Base64Url.encode signature.val)], .null]

def signResponse (network : Network) (requestJson secretKey address : Bytes)
    (sequence now : ℕ) (validateUa : Network → Bytes → Bool) : Except String Bytes := do
  let key ← signingKey secretKey
  let request ← inspectRequest P network requestJson now
  let subject := keyIdentity P key
  ensure (∀ expected ∈ request.subjectIdentity, expected = subject)
    "Contact request expects a different identity."
  ensure (1 ≤ sequence ∧ sequence ≤ maxSafeInteger) "Invalid contact revision."
  orError (validAddress network address validateUa) "Invalid contact receiving address."
  let limit ← orError (futureLimit now) "Invalid contact time."
  let expiry := min request.expiresAt limit
  let payload := (endpointValue network subject request sequence now expiry address).print
  let signature := P.sign key payload
  orError (verifySignature P (P.verifyingKey key) payload signature)
    "Unable to sign the contact response."
  return (exchangeValue payload signature).print

def verifyResponse (network : Network) (requestJson exchangeJson : Bytes) (now : ℕ)
    (validateUa : Network → Bytes → Bool) : Except String Endpoint :=
  orError (verifyEndpoint P network requestJson exchangeJson now validateUa)
    "Invalid or expired contact response."

end Exchange

/-! ## Requests -/

variable {P : Packages} {network : Network} {input : Bytes} {now : ℕ} {request : Request}

theorem futureLimit_eq_some {limit : ℕ} :
    futureLimit now = some limit ↔ limit = now + 300 ∧ limit ≤ maxSafeInteger := by
  have hsize : maxSafeInteger < u64Size := by decide
  simp only [futureLimit, Option.filter_eq_some_iff, checkedAdd_eq_some, decide_eq_true_eq]
  omega

theorem subjectOf_eq_some {value : Value} {subject : Option Bytes} :
    subjectOf P value = some subject ↔
      value = subjectValue subject ∧ ∀ s ∈ subject, (identity P s).isSome := by
  unfold subjectOf
  split_ifs with hnull
  · subst hnull
    cases subject <;> simp [subjectValue]
  · simp only [Option.bind_eq_bind, Option.bind_eq_some_iff, Value.string?_eq_some,
      Option.pure_def, Option.some.injEq]
    cases subject with
    | none => simp [subjectValue, hnull]
    | some s => simp [subjectValue, Option.isSome_iff_exists]

/-- What a request says, whatever the time. -/
structure IsRequest (P : Packages) (network : Network) (request : Request) : Prop where
  canonical : canonicalJson P request.requestJson = some (requestValue network request.audience
    request.challenge request.expiresAt request.subjectIdentity)
  audience : ∃ key, identity P request.audience = some key
  challenge : ∃ nonce : Fixed 32, request.challenge = Base64Url.encode nonce.val
  expiresAt_le : request.expiresAt ≤ maxSafeInteger
  subject : ∀ s ∈ request.subjectIdentity, (identity P s).isSome

/-- A request is accepted before it expires, but not too long before. -/
theorem parseRequest_eq_some : parseRequest P network input now = some request ↔
    request.requestJson = input ∧ IsRequest P network request ∧
      now < request.expiresAt ∧ request.expiresAt ≤ now + 300 ∧ now + 300 ≤ maxSafeInteger := by
  simp only [parseRequest, bind_eq_some, array_eq_some, Value.string?_eq_some, guard_eq_some,
    integer_eq_some, futureLimit_eq_some, subjectOf_eq_some, Option.pure_def, Option.some.injEq,
    fixed_eq_some (n := 32) (by decide) (by decide)]
  constructor
  · rintro ⟨fields, hfields, items, ⟨rfl, hlength⟩, domain, hdomain, wireName, hwireName, ⟨⟩,
      hnames, audience, haudience, key, hkey, challenge, hchallenge, nonce, hnonce, expiresAt,
      ⟨hexpiresAt, hle⟩, limit, ⟨rfl, hlimit⟩, ⟨⟩, hwindow, subject, ⟨hsubject, hidentity⟩, rfl⟩
    obtain ⟨a, b, c, d, e, f, rfl⟩ := length_eq_six.1 hlength
    simp only [List.getElem!_cons_zero, List.getElem!_cons_succ] at hdomain hwireName haudience
    simp only [List.getElem!_cons_zero, List.getElem!_cons_succ] at hchallenge hexpiresAt hsubject
    obtain ⟨hdomain', hwireName'⟩ := not_or.1 hnames
    rw [not_not] at hdomain' hwireName'
    subst hdomain hwireName haudience hchallenge hexpiresAt hsubject hdomain' hwireName'
    exact ⟨rfl, ⟨hfields, ⟨key, hkey⟩, ⟨nonce, hnonce⟩, hle, hidentity⟩,
      by simp only; omega, by simp only; omega, hlimit⟩
  · rintro ⟨rfl, ⟨hcanonical, ⟨key, hkey⟩, ⟨nonce, hnonce⟩, hle, hidentity⟩, hfrom, huntil, hlimit⟩
    exact ⟨_, hcanonical, _, ⟨rfl, rfl⟩, _, rfl, _, rfl, (), by simp, _, rfl, key, hkey, _, rfl,
      nonce, hnonce, _, ⟨rfl, hle⟩, _, ⟨rfl, hlimit⟩, (), by omega, _, ⟨rfl, hidentity⟩, rfl⟩

/-- A request that is accepted once is accepted as long as it lives. -/
theorem parseRequest_later {now' : ℕ} (h : parseRequest P network input now = some request)
    (hle : now ≤ now') : parseRequest P network input now' = some request ↔
      now' < request.expiresAt ∧ now' + 300 ≤ maxSafeInteger := by
  obtain ⟨hinput, hrequest, hfrom, huntil, hlimit⟩ := parseRequest_eq_some.1 h
  rw [parseRequest_eq_some]
  constructor
  · rintro ⟨-, -, hfrom', -, hlimit'⟩
    exact ⟨hfrom', hlimit'⟩
  · rintro ⟨hfrom', hlimit'⟩
    exact ⟨hinput, hrequest, hfrom', by omega, hlimit'⟩

/-- All readings of one text agree. -/
theorem parseRequest_unique {now' : ℕ} {request' : Request}
    (h : parseRequest P network input now = some request)
    (h' : parseRequest P network input now' = some request') : request' = request := by
  obtain ⟨hinput, hrequest, -⟩ := parseRequest_eq_some.1 h
  obtain ⟨hinput', hrequest', -⟩ := parseRequest_eq_some.1 h'
  have hvalue := hrequest.canonical
  rw [hinput, ← hinput', hrequest'.canonical] at hvalue
  simp only [requestValue, Option.some.injEq, Value.array.injEq, List.cons.injEq, true_and,
    Value.string.injEq, Value.number.injEq, and_true] at hvalue
  obtain ⟨haudience, hchallenge, hexpiresAt, hsubject⟩ := hvalue
  have hsubject' : request'.subjectIdentity = request.subjectIdentity := by
    cases hs : request'.subjectIdentity <;> cases hs' : request.subjectIdentity <;>
      simp_all [subjectValue]
  obtain ⟨_, _, _, _, _⟩ := request
  obtain ⟨_, _, _, _, _⟩ := request'
  simp_all

theorem inspectRequest_eq_ok : inspectRequest P network input now = .ok request ↔
    parseRequest P network input now = some request :=
  orError_eq_ok

theorem isAscii_of_identity {value : Bytes} {key : Fixed 32} (h : identity P value = some key) :
    isAscii value := by
  obtain ⟨rfl, -⟩ := identity_eq_some.1 h
  rw [isAscii_append, Base64Url.isAscii_of_isUrlSafe fun _ hc =>
    Base64Url.isUrlSafe_of_mem_encode hc]
  decide

/-- The text of a request is plain. -/
theorem plain_requestValue {audience : Bytes} {nonce : Fixed 32} {expiresAt : ℕ}
    {subject : Option Bytes} (haudience : isAscii audience) (hle : expiresAt ≤ maxSafeInteger)
    (hsubject : ∀ s ∈ subject, (identity P s).isSome) :
    (requestValue network audience (Base64Url.encode nonce.val) expiresAt subject).Plain := by
  have hsize : maxSafeInteger < u64Size := by decide
  have hvalue : (subjectValue subject).Plain := by
    cases subject with
    | none => exact .null
    | some s =>
      obtain ⟨key, hkey⟩ := Option.isSome_iff_exists.1 (hsubject s rfl)
      exact .string (isAscii_of_identity hkey)
  refine .array ?_
  simp only [List.mem_cons, List.not_mem_nil, or_false, forall_eq_or_imp, forall_eq]
  exact ⟨.string rfl, .string (isAscii_wireName network), .string haudience, plain_encode _,
    .number (by omega), hvalue⟩

/-- A new request is accepted, and lives for five minutes. -/
theorem createRequest_ok {seed nonce : Option (Fixed 32)} {subjectIdentity : Option Bytes}
    (h : createRequest P seed nonce network subjectIdentity now = .ok request) :
    parseRequest P network request.requestJson now = some request ∧
      request.expiresAt = now + 300 := by
  simp only [createRequest, bind_eq_ok, orError_eq_ok, ensure_eq_ok, futureLimit_eq_some,
    inspectRequest_eq_ok] at h
  obtain ⟨limit, ⟨rfl, hlimit⟩, ⟨⟩, hsubject, seed, -, nonce, -, h⟩ := h
  obtain ⟨hinput, hrequest, -⟩ := parseRequest_eq_some.1 h
  rw [hinput]
  refine ⟨h, ?_⟩
  obtain ⟨key, hkey⟩ := hrequest.audience
  obtain ⟨nonce', hnonce'⟩ := hrequest.challenge
  have hprint := (canonicalJson_eq_some.1 hrequest.canonical).2.2
  rw [hinput, hnonce'] at hprint
  -- Both texts are plain, so they are the texts of one value.
  have hplain : (requestValue network request.audience (Base64Url.encode nonce'.val)
      request.expiresAt request.subjectIdentity).Plain :=
    plain_requestValue (isAscii_of_identity hkey) hrequest.expiresAt_le hrequest.subject
  have hcreated : (requestValue network (keyIdentity P seed) (Base64Url.encode nonce.val)
      (now + 300) subjectIdentity).Plain :=
    plain_requestValue (isAscii_keyIdentity seed) hlimit hsubject
  have hread := read_print hplain.textual
  rw [hprint, read_print hcreated.textual] at hread
  simp only [requestValue, Option.some.injEq, Value.array.injEq, List.cons.injEq,
    Value.number.injEq] at hread
  exact hread.2.2.2.2.1.symm

/-! ## Responses -/

variable {exchangeJson payload : Bytes} {signature : Fixed 64} {issuedAt : ℕ} {response : Endpoint}
  {validateUa : Network → Bytes → Bool}

/-- What a signed payload says in answer to a request, whatever the time. -/
structure IsResponse (P : Packages) (network : Network) (request : Request) (payload : Bytes)
    (signature : Fixed 64) (issuedAt : ℕ) (validateUa : Network → Bytes → Bool)
    (response : Endpoint) : Prop where
  decode : decode (Base64Url.encode payload) = some payload
  canonical : canonicalJson P payload = some (endpointValue network response.identity request
    response.sequence issuedAt response.expiresAt response.address)
  signed : ∃ key, identity P response.identity = some key ∧
    verifySignature P key payload signature = some ()
  expected : ∀ subject ∈ request.subjectIdentity, subject = response.identity
  sequence : 1 ≤ response.sequence ∧ response.sequence ≤ maxSafeInteger
  issuedAt_lt : issuedAt < response.expiresAt
  expiresAt_le : response.expiresAt ≤ issuedAt + 300
  safe : response.expiresAt ≤ maxSafeInteger
  request_le : response.expiresAt ≤ request.expiresAt
  address : validAddress network response.address validateUa = some ()
  network : response.network = network.wireName

theorem length_eq_nine {α : Type} {l : List α} :
    l.length = 9 ↔ ∃ a b c d e f g h i, l = [a, b, c, d, e, f, g, h, i] := by
  simp [List.length_eq_succ_iff, eq_comm]

theorem not_any_ne {subject : Bytes} {expected : Option Bytes} :
    ¬expected.any (· ≠ subject) = true ↔ ∀ s ∈ expected, s = subject := by
  cases expected <;> simp

/-- A response is accepted while it is alive, if its request is. -/
theorem verifyEndpoint_eq_some :
    verifyEndpoint P network input exchangeJson now validateUa = some response ↔
      ∃ request payload signature issuedAt,
        parseRequest P network input now = some request ∧
        canonicalJson P exchangeJson = some (exchangeValue payload signature) ∧
        IsResponse P network request payload signature issuedAt validateUa response ∧
        issuedAt ≤ now + 30 ∧ now < response.expiresAt := by
  simp only [verifyEndpoint, bind_eq_some, array_eq_some, Value.string?_eq_some, guard_eq_some,
    integer_eq_some, checkedSub_eq_some, checkedAdd_eq_some, Option.pure_def, Option.some.injEq,
    fixed_eq_some (n := 64) (by decide) (by decide)]
  constructor
  · rintro ⟨request, hrequest, fields, hexchange, items, ⟨rfl, hthree⟩, name, hname, ⟨⟩, hheader,
      envelope, ⟨henvelope, htwo⟩, encoded, hencoded, payload, hdecode, encodedSignature,
      hencodedSignature, signature, hsignature, fields, hpayload, values, ⟨rfl, hnine⟩, domain,
      hdomain, wireName, hwireName, audience, haudience, challenge, hchallenge, ⟨⟩, hnames, subject,
      hsubject, key, hkey, ⟨⟩, hexpected, sequence, ⟨hsequence, hsequenceLe⟩, ⟨⟩, hpositive,
      issuedAt, ⟨hissuedAt, hissuedAtLe⟩, expiresAt, ⟨hexpiresAt, hexpiresAtLe⟩, validity,
      ⟨hle, rfl⟩, skewed, ⟨hskew, rfl⟩, ⟨⟩, htimes, address, haddress, ⟨⟩, hvalid, ⟨⟩, hverify, rfl⟩
    obtain ⟨a, b, c, rfl⟩ := List.length_eq_three.1 hthree
    obtain ⟨d, e, rfl⟩ := List.length_eq_two.1 htwo
    obtain ⟨x₀, x₁, x₂, x₃, x₄, x₅, x₆, x₇, x₈, rfl⟩ := length_eq_nine.1 hnine
    simp only [List.getElem!_cons_zero, List.getElem!_cons_succ] at hname hheader henvelope
    simp only [List.getElem!_cons_zero, List.getElem!_cons_succ] at hencoded hencodedSignature
    simp only [List.getElem!_cons_zero, List.getElem!_cons_succ] at hdomain hwireName haudience
    simp only [List.getElem!_cons_zero, List.getElem!_cons_succ] at hchallenge hsubject hsequence
    simp only [List.getElem!_cons_zero, List.getElem!_cons_succ] at hissuedAt hexpiresAt haddress
    obtain ⟨hname', hnull⟩ := not_or.1 hheader
    obtain ⟨rfl, -⟩ := decode_eq_some.1 hdecode
    simp only [not_or, not_not] at hname' hnull hnames
    obtain ⟨hdomain', hwireName', haudience', hchallenge'⟩ := hnames
    subst hname henvelope hencoded hencodedSignature hsignature hdomain hwireName haudience
    subst hchallenge hsubject hsequence hissuedAt hexpiresAt haddress hname' hnull
    subst hdomain' hwireName' haudience' hchallenge'
    refine ⟨request, payload, signature, issuedAt, hrequest, hexchange,
      ⟨hdecode, hpayload, ⟨key, hkey, hverify⟩, ?_, by simp only; omega, by simp only; omega,
        by simp only; omega, hexpiresAtLe, by simp only; omega, hvalid, rfl⟩, by omega,
      by simp only; omega⟩
    exact not_any_ne.1 hexpected
  · rintro ⟨request, payload, signature, issuedAt, hrequest, hexchange, h, hskew, hnow⟩
    obtain ⟨key, hkey, hverify⟩ := h.signed
    obtain ⟨-, -, -, -, hlimit⟩ := parseRequest_eq_some.1 hrequest
    have hsize : maxSafeInteger < u64Size := by decide
    have hvalidity := h.expiresAt_le
    have hissued := h.issuedAt_lt
    have hsafe := h.safe
    have hrequestLe := h.request_le
    obtain ⟨hpositive, hsequence⟩ := h.sequence
    refine ⟨request, hrequest, _, hexchange, _, ⟨rfl, rfl⟩, _, rfl, (), by simp, _, ⟨rfl, rfl⟩, _,
      rfl, payload, h.decode, _, rfl, signature, rfl, _, h.canonical, _, ⟨rfl, rfl⟩, _, rfl, _, rfl,
      _, rfl, _, rfl, (), by simp, _, rfl, key, hkey, (), ?_, _, ⟨rfl, hsequence⟩, (),
      Nat.one_le_iff_ne_zero.1 hpositive, _, ⟨rfl, by omega⟩, _, ⟨rfl, hsafe⟩, _, ⟨hissued.le, rfl⟩,
      _, ⟨by omega, rfl⟩, (), by omega, _, rfl, (), h.address, (), hverify, ?_⟩
    · exact not_any_ne.2 h.expected
    · rw [← h.network]

/-! ## The round trip -/

/-- The packages are honest, and values of strings of any characters parse back from their text
unless they are nested too deeply. -/
structure Packages.HonestOnText (P : Packages) : Prop extends P.Honest where
  fromSlice_print_textual : ∀ {value : Value}, value.Textual → value.depth < 128 →
    P.fromSlice value.print = some value

theorem signingKey_eq_ok {secret : Bytes} {key : Fixed 32} :
    signingKey secret = .ok key ↔ secret = key.val := by
  unfold signingKey
  split_ifs with h
  · simp [Subtype.ext_iff]
  · simp only [false_iff]
    rintro rfl
    exact h key.property

/-- The payload that answers a request is short. -/
theorem length_endpointValue_le {subject : Fixed 32} {sequence expiry : ℕ} {address : Bytes}
    (h : IsRequest P network request) (hsequence : sequence ≤ maxSafeInteger)
    (hnow : now ≤ maxSafeInteger) (hexpiry : expiry ≤ maxSafeInteger)
    (haddress : address.length ≤ 512) :
    (endpointValue network (keyIdentity P subject) request sequence now expiry
      address).print.length ≤ 5_000 := by
  obtain ⟨key, hkey⟩ := h.audience
  obtain ⟨nonce, hnonce⟩ := h.challenge
  have hdomain := (fits_text (d := 0) (n := 22) endpointDomain (by decide)).length_le
  have haudience : (Value.string request.audience).print.length ≤ 6 * 51 + 2 := by
    refine (fits_string (d := 0) (isAscii_of_identity hkey) ?_).length_le
    rw [(identity_eq_some.1 hkey).1, List.length_append, Base64Url.length_encode, key.property]
    decide
  have hchallenge : (Value.string request.challenge).print.length ≤ 45 :=
    hnonce ▸ (fits_encode (d := 0) nonce.property.le).length_le
  have haddress' := length_printString_le address
  have hwireName := (fits_wireName (d := 0) network).length_le
  have hsubject := (fits_keyIdentity (d := 0) (P := P) subject).length_le
  have h₁ := (fits_number (d := 0) hsequence).length_le
  have h₂ := (fits_number (d := 0) hnow).length_le
  have h₃ := (fits_number (d := 0) hexpiry).length_le
  rw [endpointValue, length_print_array (by simp)]
  simp only [List.map_cons, List.map_nil, List.sum_cons, List.sum_nil]
  simp only [Value.print] at *
  omega

theorem textual_endpointValue {subject : Fixed 32} {sequence expiry : ℕ} {address : String}
    (h : IsRequest P network request) (hsequence : sequence ≤ maxSafeInteger)
    (hnow : now ≤ maxSafeInteger) (hexpiry : expiry ≤ maxSafeInteger) :
    (endpointValue network (keyIdentity P subject) request sequence now expiry
      (utf8 address)).Textual := by
  have hsize : maxSafeInteger < u64Size := by decide
  obtain ⟨key, hkey⟩ := h.audience
  obtain ⟨nonce, hnonce⟩ := h.challenge
  refine .array ?_
  simp only [List.mem_cons, List.not_mem_nil, or_false, forall_eq_or_imp, forall_eq]
  exact ⟨(Value.Plain.string rfl).textual, (Value.Plain.string (isAscii_wireName network)).textual,
    (Value.Plain.string (isAscii_keyIdentity subject)).textual,
    (Value.Plain.string (isAscii_of_identity hkey)).textual, hnonce ▸ (plain_encode _).textual,
    .number (by omega), .number (by omega), .number (by omega), .string address⟩

theorem fits_exchangeValue (h : payload.length ≤ 5_000) :
    Fits 2 7_000 (exchangeValue payload signature) :=
  (fits_array (.cons (fits_text (n := 22) exchangeDomain (by decide)) (.cons
    (fits_array (.cons (fits_encode h) (.cons (fits_encode signature.property.le) .nil)) (by simp))
    (.cons ⟨.null, Nat.zero_le 1, (by decide : (Value.print .null).length ≤ 4)⟩ .nil)))
    (by simp)).mono (by simp)

/-- What is signed answers the request, and expires with it. -/
theorem signResponse_ok (hP : P.HonestOnText) {secretKey : Bytes} {address : String}
    {sequence : ℕ} (h : signResponse P network input secretKey (utf8 address) sequence now
      validateUa = .ok exchangeJson) :
    ∃ (key : Fixed 32) (request : Request) (payload : Bytes) (signature : Fixed 64),
      secretKey = key.val ∧ parseRequest P network input now = some request ∧
      canonicalJson P exchangeJson = some (exchangeValue payload signature) ∧
      IsResponse P network request payload signature now validateUa
        ⟨keyIdentity P key, utf8 address, sequence, request.expiresAt, network.wireName⟩ := by
  simp only [signResponse, bind_eq_ok, signingKey_eq_ok, inspectRequest_eq_ok, ensure_eq_ok,
    orError_eq_ok, futureLimit_eq_some, pure_eq_ok] at h
  obtain ⟨key, hkey, request, hrequest, ⟨⟩, hexpected, ⟨⟩, hsequence, ⟨⟩, haddress, limit,
    ⟨rfl, hlimit⟩, ⟨⟩, hsigned, rfl⟩ := h
  obtain ⟨-, hrequest', hfrom, huntil, -⟩ := parseRequest_eq_some.1 hrequest
  rw [Nat.min_eq_left huntil] at hsigned ⊢
  have hsafe := hrequest'.expiresAt_le
  have hnow : now ≤ maxSafeInteger := by omega
  have hlength : (endpointValue network (keyIdentity P key) request sequence now
      request.expiresAt (utf8 address)).print.length ≤ 5_000 :=
    length_endpointValue_le hrequest' hsequence.2 hnow hsafe (validAddress_eq_some.1 haddress).2.1
  have htextual : (endpointValue network (keyIdentity P key) request sequence now
      request.expiresAt (utf8 address)).Textual :=
    textual_endpointValue hrequest' hsequence.2 hnow hsafe
  have hdepth : (endpointValue network (keyIdentity P key) request sequence now
      request.expiresAt (utf8 address)).depth < 128 := by
    simp [endpointValue, text, Value.depth, Value.depthItems]
  refine ⟨key, request, _, _, hkey, hrequest,
    hP.canonicalJson_print (fits_exchangeValue hlength).plain
      ((fits_exchangeValue hlength).depth_le.trans_lt (by decide))
      ((fits_exchangeValue hlength).length_le.trans (by decide)),
    ⟨decode_eq_some.2 ⟨rfl, ?_, ?_⟩, canonicalJson_eq_some.2 ⟨hlength.trans (by decide),
      hP.fromSlice_print_textual htextual hdepth, rfl⟩, ⟨_, hP.identity_keyIdentity key, hsigned⟩,
      hexpected, hsequence, hfrom, huntil, hsafe, le_rfl, haddress, rfl⟩⟩
  · simp [endpointValue, Value.print]
  · rw [Base64Url.length_encode, maxEncodedBytes]
    omega

/-- Without a request there is no response. -/
theorem verifyResponse_error (h : ∀ request, parseRequest P network input now ≠ some request) :
    verifyResponse P network input exchangeJson now validateUa =
      .error "Invalid or expired contact response." := by
  have hnone : verifyEndpoint P network input exchangeJson now validateUa = none := by
    refine Option.eq_none_iff_forall_ne_some.2 fun response hresponse => ?_
    obtain ⟨request, _, _, _, hrequest, -⟩ := verifyEndpoint_eq_some.1 hresponse
    exact h request hrequest
  rw [verifyResponse, hnone]
  rfl

/-- Near the largest safe integer no request is accepted. -/
theorem parseRequest_ne_some (h : maxSafeInteger < now + 300) :
    parseRequest P network input now ≠ some request := by
  intro hrequest
  obtain ⟨-, -, -, -, hlimit⟩ := parseRequest_eq_some.1 hrequest
  omega

/-- A signed response is accepted until the request expires, with what was signed, and rejected
from then on; a new request is accepted for five minutes. Both need five minutes between the clock
and the largest safe integer. -/
theorem response_round_trip (hP : P.HonestOnText) (network : Network)
    (requestJson secretKey : Bytes) (address : String) (sequence now : ℕ)
    (validateUa : Network → Bytes → Bool) :
    (∀ exchangeJson, signResponse P network requestJson secretKey (utf8 address) sequence now
        validateUa = .ok exchangeJson →
      ∃ (seed : Fixed 32) (request : Request), secretKey = seed.val ∧
        parseRequest P network requestJson now = some request ∧
        (∀ now', now ≤ now' → now' < request.expiresAt → now' + 300 ≤ maxSafeInteger →
          verifyResponse P network requestJson exchangeJson now' validateUa =
            .ok ⟨keyIdentity P seed, utf8 address, sequence, request.expiresAt,
              network.wireName⟩) ∧
        ∀ now', request.expiresAt ≤ now' ∨ maxSafeInteger < now' + 300 →
          verifyResponse P network requestJson exchangeJson now' validateUa =
            .error "Invalid or expired contact response.") ∧
    ∀ seed nonce subjectIdentity request,
      createRequest P seed nonce network subjectIdentity now = .ok request →
      ∀ now', now ≤ now' → now' < now + 300 → now' + 300 ≤ maxSafeInteger →
        inspectRequest P network request.requestJson now' = .ok request := by
  constructor
  · intro exchangeJson h
    obtain ⟨seed, request, payload, signature, hseed, hrequest, hexchange, hresponse⟩ :=
      signResponse_ok hP h
    refine ⟨seed, request, hseed, hrequest, fun now' hfrom huntil hlimit => ?_,
      fun now' hlate => ?_⟩
    · refine orError_eq_ok.2 (verifyEndpoint_eq_some.2 ⟨request, payload, signature, now,
        (parseRequest_later hrequest hfrom).2 ⟨huntil, hlimit⟩, hexchange, hresponse, ?_, huntil⟩)
      omega
    · refine verifyResponse_error fun request' hrequest' => ?_
      obtain rfl := parseRequest_unique hrequest hrequest'
      obtain ⟨-, -, halive, -, hlimit⟩ := parseRequest_eq_some.1 hrequest'
      omega
  · intro seed nonce subjectIdentity request h now' hfrom huntil hlimit
    obtain ⟨hrequest, hexpiresAt⟩ := createRequest_ok h
    exact inspectRequest_eq_ok.2 ((parseRequest_later hrequest hfrom).2 ⟨by omega, hlimit⟩)

/-! ## Samples -/

theorem honestOnText_mirrorPackages : mirrorPackages.HonestOnText where
  toHonest := honest_mirrorPackages
  fromSlice_print_textual h _ := read_print h

/-- A request to whoever answers. -/
def sampleRequestJson (expiresAt : ℕ) : Bytes :=
  (requestValue .main (keyIdentity mirrorPackages (constantSeed 1))
    (Base64Url.encode (constantSeed 2).val) expiresAt none).print

/-- The answer to the sample request. -/
def sampleResponse (expiresAt now : ℕ) : Except String Bytes :=
  signResponse mirrorPackages .main (sampleRequestJson expiresAt) (constantSeed 3).val
    (utf8 "u1é日") 7 now fun _ _ => true

theorem exists_of_isOk {ε α : Type} {x : Except ε α} (h : x.isOk = true) : ∃ a, x = .ok a := by
  cases x with
  | error => cases h
  | ok a => exact ⟨a, rfl⟩

theorem response_round_trip_sample :
    ∃ exchangeJson, sampleResponse 1_700_000_200 1_700_000_000 = .ok exchangeJson ∧
      verifyResponse mirrorPackages .main (sampleRequestJson 1_700_000_200) exchangeJson
        1_700_000_199 (fun _ _ => true) =
          .ok ⟨keyIdentity mirrorPackages (constantSeed 3), utf8 "u1é日", 7, 1_700_000_200,
            Network.main.wireName⟩ := by
  obtain ⟨exchangeJson, hsigned⟩ : ∃ exchangeJson,
      sampleResponse 1_700_000_200 1_700_000_000 = .ok exchangeJson :=
    exists_of_isOk (by decide +kernel)
  have hexpires : (parseRequest mirrorPackages .main (sampleRequestJson 1_700_000_200)
      1_700_000_000).map (·.expiresAt) = some 1_700_000_200 := by decide +kernel
  obtain ⟨seed, request, hseed, hrequest, haccepted, -⟩ :=
    (response_round_trip honestOnText_mirrorPackages .main (sampleRequestJson 1_700_000_200)
      (constantSeed 3).val "u1é日" 7 1_700_000_000 fun _ _ => true).1 exchangeJson hsigned
  rw [hrequest, Option.map_some, Option.some.injEq] at hexpires
  refine ⟨exchangeJson, hsigned, ?_⟩
  have h := haccepted 1_700_000_199 (by decide) (by rw [hexpires]; decide) (by decide)
  rwa [← Subtype.ext hseed, hexpires] at h

/-- Five minutes before the largest safe integer a request is created and answered, and a second
later neither the request nor the answer is accepted, although both have not expired. -/
theorem response_rejected_at_largest_time :
    (∃ exchangeJson request,
      sampleResponse maxSafeInteger (maxSafeInteger - 300) = .ok exchangeJson ∧
      parseRequest mirrorPackages .main (sampleRequestJson maxSafeInteger)
        (maxSafeInteger - 300) = some request ∧
      maxSafeInteger - 299 < request.expiresAt ∧
      verifyResponse mirrorPackages .main (sampleRequestJson maxSafeInteger) exchangeJson
        (maxSafeInteger - 299) (fun _ _ => true) =
          .error "Invalid or expired contact response.") ∧
    ∃ request, createRequest mirrorPackages (some (constantSeed 1)) (some (constantSeed 2)) .main
        none (maxSafeInteger - 300) = .ok request ∧
      inspectRequest mirrorPackages .main request.requestJson (maxSafeInteger - 299) ≠
        .ok request := by
  have hlate : maxSafeInteger < maxSafeInteger - 299 + 300 := by decide
  constructor
  · obtain ⟨exchangeJson, hsigned⟩ : ∃ exchangeJson,
        sampleResponse maxSafeInteger (maxSafeInteger - 300) = .ok exchangeJson :=
      exists_of_isOk (by decide +kernel)
    have hexpires : (parseRequest mirrorPackages .main (sampleRequestJson maxSafeInteger)
        (maxSafeInteger - 300)).map (·.expiresAt) = some maxSafeInteger := by decide +kernel
    obtain ⟨request, hrequest, hexpires⟩ := Option.map_eq_some_iff.1 hexpires
    exact ⟨exchangeJson, request, hsigned, hrequest, by rw [hexpires]; decide,
      verifyResponse_error fun _ => parseRequest_ne_some hlate⟩
  · obtain ⟨request, hcreated⟩ : ∃ request,
        createRequest mirrorPackages (some (constantSeed 1)) (some (constantSeed 2)) .main none
          (maxSafeInteger - 300) = .ok request :=
      exists_of_isOk (by decide +kernel)
    refine ⟨request, hcreated, fun haccepted => ?_⟩
    exact parseRequest_ne_some hlate (inspectRequest_eq_ok.1 haccepted)

end VizorWallet.Contact
