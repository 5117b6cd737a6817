import VizorWallet.Contact.Introduction

/-!
# The direct exchange

A request names a fresh audience and challenge; the response is a signed endpoint for them.

## Main definitions

* `parseRequest` — the checks of a request.
* `verifyEndpoint` — the checks of a response to a request.

## Main results

* `verifyEndpoint_payload` — the signed part of an accepted response.
-/

namespace VizorWallet.Contact

open Json

def requestDomain : String := "zcash-contact/request"

def endpointDomain : String := "zcash-contact/endpoint"

def exchangeDomain : String := "zcash-contact/exchange"

structure Request where
  requestJson : Bytes
  audience : Bytes
  challenge : Bytes
  expiresAt : ℕ
  subjectIdentity : Option Bytes
  deriving DecidableEq

structure Endpoint where
  identity : Bytes
  address : Bytes
  sequence : ℕ
  expiresAt : ℕ
  network : Bytes
  deriving DecidableEq

/-- Five minutes from now. -/
def futureLimit (now : ℕ) : Option ℕ := (checkedAdd now 300).filter (· ≤ maxSafeInteger)

variable (P : Packages)

/-- The identity a request expects, if any. -/
def subjectOf (value : Value) : Option (Option Bytes) :=
  if value = .null then some none
  else do
    let subject ← value.string?
    let _ ← identity P subject
    return some subject

def parseRequest (network : Network) (input : Bytes) (now : ℕ) : Option Request := do
  let fields ← canonicalJson P input
  let request ← array fields 6
  let domain ← request[0]!.string?
  let wireName ← request[1]!.string?
  guard ¬(domain ≠ ascii requestDomain ∨ wireName ≠ network.wireName)
  let audience ← request[2]!.string?
  let _ ← identity P audience
  let challenge ← request[3]!.string?
  let _ ← fixed 32 challenge
  let expiresAt ← integer request[4]!
  let limit ← futureLimit now
  guard ¬(expiresAt ≤ now ∨ limit < expiresAt)
  let subjectIdentity ← subjectOf P request[5]!
  return { requestJson := input, audience, challenge, expiresAt, subjectIdentity }

def verifyEndpoint (network : Network) (requestJson exchangeJson : Bytes) (now : ℕ)
    (validateUa : Network → Bytes → Bool) : Option Endpoint := do
  let request ← parseRequest P network requestJson now
  let fields ← canonicalJson P exchangeJson
  let exchange ← array fields 3
  let exchangeName ← exchange[0]!.string?
  guard ¬(exchangeName ≠ ascii exchangeDomain ∨ exchange[2]! ≠ .null)
  let envelope ← array exchange[1]! 2
  let encoded ← envelope[0]!.string?
  let payload ← decode encoded
  let encodedSignature ← envelope[1]!.string?
  let signature ← fixed 64 encodedSignature
  let fields ← canonicalJson P payload
  let endpoint ← array fields 9
  let domain ← endpoint[0]!.string?
  let wireName ← endpoint[1]!.string?
  let audience ← endpoint[3]!.string?
  let challenge ← endpoint[4]!.string?
  guard ¬(domain ≠ ascii endpointDomain ∨ wireName ≠ network.wireName ∨
    audience ≠ request.audience ∨ challenge ≠ request.challenge)
  let subject ← endpoint[2]!.string?
  let subjectKey ← identity P subject
  guard ¬request.subjectIdentity.any (· ≠ subject)
  let sequence ← integer endpoint[5]!
  guard (sequence ≠ 0)
  let issuedAt ← integer endpoint[6]!
  let expiresAt ← integer endpoint[7]!
  let validity ← checkedSub expiresAt issuedAt
  let skewed ← checkedAdd now 30
  guard ¬(¬(1 ≤ validity ∧ validity ≤ 300) ∨ skewed < issuedAt ∨ expiresAt ≤ now ∨
    request.expiresAt < expiresAt)
  let address ← endpoint[8]!.string?
  validAddress network address validateUa
  verifySignature P subjectKey payload signature
  return { identity := subject, address, sequence, expiresAt, network := network.wireName }

variable {P}

/-- The signed part of an accepted response starts with the domain of endpoints. -/
theorem verifyEndpoint_payload {network : Network} {requestJson exchangeJson : Bytes} {now : ℕ}
    {validateUa : Network → Bytes → Bool} {result : Endpoint}
    (h : verifyEndpoint P network requestJson exchangeJson now validateUa = some result) :
    ∃ (payload : Bytes) (signature : Value) (rest : List Value),
      canonicalJson P exchangeJson = some (.array [text exchangeDomain,
        .array [.string (Base64Url.encode payload), signature], .null]) ∧
      canonicalJson P payload = some (.array (text endpointDomain :: rest)) := by
  rw [verifyEndpoint] at h
  obtain ⟨request, -, h⟩ := bind_eq_some.1 h
  obtain ⟨fields, hfields, h⟩ := bind_eq_some.1 h
  obtain ⟨exchange, hexchange, h⟩ := bind_eq_some.1 h
  obtain ⟨name, hname, h⟩ := bind_eq_some.1 h
  obtain ⟨⟨⟩, hheader, h⟩ := bind_eq_some.1 h
  obtain ⟨envelope, henvelope, h⟩ := bind_eq_some.1 h
  obtain ⟨encoded, hencoded, h⟩ := bind_eq_some.1 h
  obtain ⟨payload, hdecode, h⟩ := bind_eq_some.1 h
  obtain ⟨_, -, h⟩ := bind_eq_some.1 h
  obtain ⟨_, -, h⟩ := bind_eq_some.1 h
  obtain ⟨payloadFields, hpayload, h⟩ := bind_eq_some.1 h
  obtain ⟨endpoint, hendpoint, h⟩ := bind_eq_some.1 h
  obtain ⟨domain, hdomain, h⟩ := bind_eq_some.1 h
  obtain ⟨_, -, h⟩ := bind_eq_some.1 h
  obtain ⟨_, -, h⟩ := bind_eq_some.1 h
  obtain ⟨_, -, h⟩ := bind_eq_some.1 h
  obtain ⟨⟨⟩, hdomains, -⟩ := bind_eq_some.1 h
  clear h
  obtain ⟨rfl, hlength⟩ := array_eq_some.1 hexchange
  obtain ⟨a, b, c, rfl⟩ := List.length_eq_three.1 hlength
  obtain ⟨hb, htwo⟩ := array_eq_some.1 henvelope
  obtain ⟨d, e, rfl⟩ := List.length_eq_two.1 htwo
  obtain ⟨rfl, hnine⟩ := array_eq_some.1 hendpoint
  obtain ⟨first, rest, rfl⟩ := List.exists_cons_of_length_eq_add_one hnine
  obtain ⟨hdomain', -⟩ := not_or.1 (guard_eq_some.1 hdomains)
  obtain ⟨hname', hnull⟩ := not_or.1 (guard_eq_some.1 hheader)
  rw [not_not] at hdomain' hname' hnull
  simp only [List.getElem!_cons_zero, List.getElem!_cons_succ, Value.string?_eq_some] at *
  subst hb hname hnull hencoded hdomain hdomain' hname'
  obtain ⟨rfl, -⟩ := decode_eq_some.1 hdecode
  exact ⟨payload, e, rest, hfields, hpayload⟩

end VizorWallet.Contact
