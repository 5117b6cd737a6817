import VizorWallet.Contact.Profile

/-!
# Introductions between contacts

Alice introduces Carol, who asks, to Bob. Each of the four packages carries the request of Carol
and signed parts: her ask, the offer of Alice to Bob, the fresh endpoint and the consent of Bob,
and the endorsement of Alice.

## Main definitions

* `request`, `Envelope.parse`, `offer`, `endpoint` — the parts of a package.
* `verifyParts`, `verifyInner`, `verify` — the verifier of all four packages.
* `createAsk`, `createOffer`, `createConsent`, `createDelivery` — the builders.
-/

namespace VizorWallet.Contact

open Json

variable (P : Packages)

/-- A string literal. -/
def text (s : String) : Value := .string (ascii s)

def introductionError : String := "Invalid or expired contact introduction."

/-- The lifetime of an invitation. -/
def invitationTtl : ℕ := 30 * 24 * 60 * 60

/-- A checked package. -/
structure Verified where
  packetJson : Bytes
  requestJson : Bytes
  requestHash : Bytes
  endpointHash : Option Bytes
  endorsementHash : Option Bytes
  expiresAt : ℕ
  offerJson : Option Bytes
  endpointJson : Option Bytes
  identity : Option Bytes
  address : Option Bytes
  sequence : Option ℕ
  suggestion : Option Bytes
  deriving DecidableEq

inductive Role where
  | ask
  | offer
  | consent
  | delivery
  deriving DecidableEq, Repr

/-- The domain of a package and the number of its items. -/
def Role.package : Role → String × ℕ
  | ask => ("zcash-contact/intro-ask-package", 3)
  | offer => ("zcash-contact/intro-offer-package", 3)
  | consent => ("zcash-contact/intro-consent-package", 4)
  | delivery => ("zcash-contact/intro-delivery", 4)

/-- The value of a canonical ASCII text. -/
def canonical (input : Bytes) : Option Value := do
  guard (isAscii input)
  canonicalJson P input

/-- The text that is hashed for a value. -/
def digestInput (value : Value) : Bytes :=
  (Value.array [text "zcash-contact/intro-digest", value]).print

/-- The hash of a value, encoded. -/
def digestText (value : Value) : Bytes := Base64Url.encode (P.sha256 (digestInput value)).val

def digest (value : Value) : Value := .string (digestText P value)

/-- The lifetime that the domain of a request promises. -/
def lifetime (domain : Bytes) : Option ℕ :=
  if domain = ascii "zcash-contact/intro-request" then some 900
  else if domain = ascii "zcash-contact/intro-invitation" then some invitationTtl
  else none

/-- The hash of a request that is alive. -/
def request (value : Value) (network : Network) (now : ℕ) : Option Value := do
  let r ← array value 5
  let sid ← r[2]!.string?
  let _ ← fixed 32 sid
  let issued ← integer r[3]!
  let expires ← integer r[4]!
  let domain ← r[0]!.string?
  let ttl ← lifetime domain
  guard (now ≤ maxSafeInteger ∧ r[1]! = .string network.wireName ∧
    checkedAdd issued ttl = some expires ∧ issued ≤ now ∧ now < expires)
  return digest P value

/-- Two different identities. -/
def paired (peer own : Bytes) : Option Unit := do
  let _ ← identity P peer
  let _ ← identity P own
  guard (peer ≠ own)

/-- One to twenty printable characters, no space at either end. -/
def suggestion (value : Value) : Option Bytes := do
  let s ← value.string?
  guard (s ≠ [] ∧ s.length ≤ 20 ∧ s.head? ≠ some 0x20 ∧ s.getLast? ≠ some 0x20 ∧
    s.all fun b => 0x20 ≤ b && b ≤ 0x7e)
  return s

/-- A signed payload. -/
structure Envelope where
  payload : Bytes
  fields : Value
  signature : Fixed 64

namespace Envelope

def parse (value : Value) : Option Envelope := do
  let a ← array value 2
  let encoded ← a[0]!.string?
  let payload ← decode encoded
  -- the UTF-8 check of the source is implied by the ASCII check
  let fields ← canonical P payload
  let encodedSignature ← a[1]!.string?
  let signature ← fixed 64 encodedSignature
  return { payload, fields, signature }

def verify (envelope : Envelope) (signer : Bytes) : Option Unit := do
  let key ← identity P signer
  verifySignature P key envelope.payload envelope.signature

end Envelope

/-- The suggestion of a signed offer to the recipient. -/
def offer (value hash : Value) (signer recipient : Bytes) : Option Bytes := do
  let envelope ← Envelope.parse P value
  let o ← array envelope.fields 4
  guard (o[0]! = text "zcash-contact/intro-offer" ∧ o[1]! = hash ∧ o[2]! = .string recipient)
  let suggested ← suggestion o[3]!
  envelope.verify P signer
  return suggested

/-- The identity and the address of a self-signed endpoint. -/
def endpoint (value hash : Value) (network : Network) (peer own : Bytes)
    (validateUa : Network → Bytes → Bool) : Option (Bytes × Bytes) := do
  let envelope ← Envelope.parse P value
  let e ← array envelope.fields 6
  guard (e[0]! = text "zcash-contact/intro-endpoint" ∧ e[1]! = .string network.wireName ∧
    e[2]! = hash ∧ integer e[4]! = some 1 ∧ e[3]! ≠ .string peer ∧ e[3]! ≠ .string own)
  let subject ← e[3]!.string?
  envelope.verify P subject
  let address ← e[5]!.string?
  validAddress network address validateUa
  return (subject, address)

/-- The saved request is the request of the package. -/
def matchesSaved (saved : Option Bytes) (requestValue : Value) : Option Unit := do
  let text ← saved
  let value ← canonical P text
  guard (value = requestValue)

/-- The parts of a package `p` whose request has this hash. -/
def verifyParts (role : Role) (network : Network) (peer own : Bytes)
    (savedRequestJson savedOfferJson : Option Bytes) (validateUa : Network → Bytes → Bool)
    (p : List Value) (hash : Value) (result : Verified) : Option Verified := do
  match role with
  | .ask =>
    guard (savedRequestJson.isNone ∧ savedOfferJson.isNone)
    let envelope ← Envelope.parse P p[2]!
    let asked ← array envelope.fields 3
    guard (asked[0]! = text "zcash-contact/intro-ask" ∧ asked[1]! = hash ∧
      asked[2]! = .string own)
    envelope.verify P peer
    return result
  | .offer =>
    guard (savedRequestJson.isNone ∧ savedOfferJson.isNone)
    let suggested ← offer P p[2]! hash peer own
    return { result with suggestion := some suggested, offerJson := some p[2]!.print }
  | .consent =>
    matchesSaved P savedRequestJson p[1]!
    let savedOfferText ← savedOfferJson
    let savedOffer ← canonical P savedOfferText
    let _ ← offer P savedOffer hash own peer
    let envelope ← Envelope.parse P p[3]!
    let b ← array envelope.fields 4
    guard (b[0]! = text "zcash-contact/intro-consent" ∧ b[1]! = hash ∧
      b[2]! = digest P savedOffer ∧ b[3]! = digest P p[2]!)
    envelope.verify P peer
    let (subject, address) ← endpoint P p[2]! hash network peer own validateUa
    return { result with
      offerJson := some savedOffer.print
      identity := some subject, address := some address, sequence := some 1
      endpointJson := some p[2]!.print, endpointHash := some (digestText P p[2]!) }
  | .delivery =>
    matchesSaved P savedRequestJson p[1]!
    guard savedOfferJson.isNone
    let envelope ← Envelope.parse P p[3]!
    let a ← array envelope.fields 5
    guard (a[0]! = text "zcash-contact/intro-endorsement" ∧
      a[1]! = .string network.wireName ∧ a[2]! = hash ∧ a[3]! = digest P p[2]!)
    let suggested ← suggestion a[4]!
    envelope.verify P peer
    let (subject, address) ← endpoint P p[2]! hash network peer own validateUa
    return { result with
      suggestion := some suggested
      endorsementHash := some (digestText P p[3]!)
      identity := some subject, address := some address, sequence := some 1
      endpointJson := some p[2]!.print, endpointHash := some (digestText P p[2]!) }

def verifyInner (role : Role) (network : Network) (peer own : Bytes)
    (savedRequestJson savedOfferJson : Option Bytes) (packetJson : Bytes) (now : ℕ)
    (validateUa : Network → Bytes → Bool) : Option Verified := do
  paired P peer own
  let packet ← canonical P packetJson
  let p ← array packet role.package.2
  guard (p[0]! = text role.package.1)
  let hash ← request P p[1]! network now
  let requestHash ← hash.string?
  let r ← p[1]!.items?
  let expiresAt ← integer r[4]!
  let result : Verified :=
    { packetJson, requestJson := p[1]!.print, requestHash, endpointHash := none,
      endorsementHash := none, expiresAt, offerJson := none, endpointJson := none,
      identity := none, address := none, sequence := none, suggestion := none }
  verifyParts P role network peer own savedRequestJson savedOfferJson validateUa p hash result

def verify (role : Role) (network : Network) (acceptedPeer pairedOwn : Bytes)
    (savedRequestJson savedOfferJson : Option Bytes) (packetJson : Bytes) (now : ℕ)
    (validateUa : Network → Bytes → Bool) : Except String Verified :=
  orError (verifyInner P role network acceptedPeer pairedOwn savedRequestJson savedOfferJson
    packetJson now validateUa) introductionError

/-! ## The builders -/

def signingKey (secret : Bytes) : Except String (Fixed 32) :=
  if h : secret.length = 32 then .ok ⟨secret, h⟩ else .error "Invalid contact signing key."

/-- The envelope of a payload. -/
def signed (payload : Value) (key : Fixed 32) : Value :=
  .array [.string (Base64Url.encode payload.print),
    .string (Base64Url.encode (P.sign key payload.print).val)]

/-- Ask for an introduction; `sid` is what the random source returns. -/
def createAsk (sid : Option (Fixed 32)) (network : Network) (peerAcIdentity secretCaKey : Bytes)
    (now : ℕ) : Except String Verified := do
  let key ← signingKey secretCaKey
  let ownCaIdentity := keyIdentity P key
  orError (paired P peerAcIdentity ownCaIdentity) introductionError
  let expires ← orError ((checkedAdd now invitationTtl).filter (· ≤ maxSafeInteger))
    introductionError
  let sid ← orError sid "Contact randomness is unavailable."
  let r : Value := .array [text "zcash-contact/intro-invitation", .string network.wireName,
    .string (Base64Url.encode sid.val), .number now, .number expires]
  let c := signed P
    (.array [text "zcash-contact/intro-ask", digest P r, .string peerAcIdentity]) key
  let packet := (Value.array [text "zcash-contact/intro-ask-package", r, c]).print
  verify P .ask network ownCaIdentity peerAcIdentity none none packet now fun _ _ => false

def createOffer (network : Network) (requestJson peerBaIdentity secretAbKey : Bytes)
    (suggestedRecipient : Bytes) (now : ℕ) : Except String Verified := do
  let key ← signingKey secretAbKey
  let ownAbIdentity := keyIdentity P key
  orError (paired P peerBaIdentity ownAbIdentity) introductionError
  let r ← orError (canonical P requestJson) introductionError
  let hash ← orError (request P r network now) introductionError
  let _ ← orError (suggestion (.string suggestedRecipient)) introductionError
  let o := signed P (.array [text "zcash-contact/intro-offer", hash, .string peerBaIdentity,
    .string suggestedRecipient]) key
  let packet := (Value.array [text "zcash-contact/intro-offer-package", r, o]).print
  verify P .offer network ownAbIdentity peerBaIdentity none none packet now fun _ _ => false

def createConsent (network : Network) (peerAbIdentity secretBaKey freshSecretBcKey : Bytes)
    (freshAddress offerPacketJson : Bytes) (now : ℕ) (validateUa : Network → Bytes → Bool) :
    Except String Verified := do
  let ba ← signingKey secretBaKey
  let bc ← signingKey freshSecretBcKey
  let ownBaIdentity := keyIdentity P ba
  let verified ← verify P .offer network peerAbIdentity ownBaIdentity none none offerPacketJson
    now validateUa
  let r ← orError (canonical P verified.requestJson) introductionError
  let offerJson ← orError verified.offerJson introductionError
  let o ← orError (canonical P offerJson) introductionError
  let e := signed P (.array [text "zcash-contact/intro-endpoint", .string network.wireName,
    .string verified.requestHash, .string (keyIdentity P bc), .number 1,
    .string freshAddress]) bc
  -- the endpoint is checked before the consent is signed
  let _ ← orError (endpoint P e (digest P r) network peerAbIdentity ownBaIdentity validateUa)
    introductionError
  let b := signed P
    (.array [text "zcash-contact/intro-consent", digest P r, digest P o, digest P e]) ba
  let packet := (Value.array [text "zcash-contact/intro-consent-package", r, e, b]).print
  verify P .consent network ownBaIdentity peerAbIdentity (some verified.requestJson)
    (some offerJson) packet now validateUa

def createDelivery (network : Network)
    (peerBaIdentity ownAbIdentity peerCaIdentity secretAcKey : Bytes)
    (savedRequestJson savedOfferJson consentPacketJson suggestedContact : Bytes) (now : ℕ)
    (validateUa : Network → Bytes → Bool) : Except String Verified := do
  let ac ← signingKey secretAcKey
  let ownAcIdentity := keyIdentity P ac
  orError (paired P peerCaIdentity ownAcIdentity) introductionError
  let verified ← verify P .consent network peerBaIdentity ownAbIdentity (some savedRequestJson)
    (some savedOfferJson) consentPacketJson now validateUa
  let _ ← orError (suggestion (.string suggestedContact)) introductionError
  let r ← orError (canonical P verified.requestJson) introductionError
  let endpointJson ← orError verified.endpointJson introductionError
  let e ← orError (canonical P endpointJson) introductionError
  let _ ← orError (endpoint P e (digest P r) network peerCaIdentity ownAcIdentity validateUa)
    introductionError
  let a := signed P (.array [text "zcash-contact/intro-endorsement", .string network.wireName,
    digest P r, digest P e, .string suggestedContact]) ac
  let packet := (Value.array [text "zcash-contact/intro-delivery", r, e, a]).print
  verify P .delivery network ownAcIdentity peerCaIdentity (some savedRequestJson) none packet now
    validateUa

end VizorWallet.Contact
