import VizorWallet.Library.CodeUnits
import VizorWallet.Library.Outcome

/-!
# Gift links and their recovery form

A gift link carries a mnemonic, an amount, a birthday and a presentation. Its established form
is a JSON object in the fragment of a URI; records store it and two links are compared by it.

## Main definitions

* `PaymentLinkPresentation.toPayload`, `PaymentLinkPresentation.fromPayload` — the presentation.
* `VizorPaymentLink.toRecoveryUri` — the version 2 form.
-/

namespace VizorWallet.PaymentLink

open CodeUnits

/-- A JSON value, with the floating-point numbers as a parameter. -/
inductive Value (Double : Type) where
  | null
  | bool (b : Bool)
  | int (n : Int64)
  | double (x : Double)
  | string (s : CodeUnits)
  | list (items : List (Value Double))
  | map (entries : List (CodeUnits × Value Double))

namespace Value

variable {Double : Type}

def isNull : Value Double → Bool
  | .null => true
  | _ => false

def int? : Value Double → Option Int64
  | .int n => some n
  | _ => none

def string? : Value Double → Option CodeUnits
  | .string text => some text
  | _ => none

/-- A text, or null. -/
def stringOrNull? : Value Double → Option (Option CodeUnits)
  | .null => some none
  | .string text => some (some text)
  | _ => none

def list? : Value Double → Option (List (Value Double))
  | .list items => some items
  | _ => none

def map? : Value Double → Option (List (CodeUnits × Value Double))
  | .map entries => some entries
  | _ => none

end Value

/-- `value[key]`: null where the key is missing. -/
def lookup {Double : Type} (entries : List (CodeUnits × Value Double)) (key : String) :
    Value Double :=
  (entries.lookup (literal key)).getD .null

/-- The components of a parsed URI that links are checked by. -/
structure Uri where
  scheme : CodeUnits
  userInfo : CodeUnits
  host : CodeUnits
  hasPort : Bool
  path : CodeUnits
  hasQuery : Bool
  fragment : CodeUnits

/-- The build's configuration, floating-point numbers, and packages that read and write texts. -/
structure Packages (Double Time : Type) where
  /-- `kPaymentLinkRegtestEnabled` -/
  regtestEnabled : Bool
  /-- `VizorDeepLink.host` -/
  host : CodeUnits
  isFinite : Double → Bool
  /-- `x < 0` -/
  isNegative : Double → Bool
  toDouble : Int64 → Double
  /-- `x == n` -/
  equalsInt : Double → Int64 → Bool
  jsonEncode : Value Double → Option CodeUnits
  jsonDecode : CodeUnits → Option (Value Double)
  utf8Encode : CodeUnits → Bytes
  utf8Decode : Bytes → Option CodeUnits
  /-- `base64Url.decode(base64Url.normalize(text))` -/
  base64Decode : CodeUnits → Option Bytes
  tryParseUri : CodeUnits → Option Uri
  tryParseInt : CodeUnits → Option Int64
  tryParseDateTime : CodeUnits → Option Time
  /-- `text.characters.length` -/
  characters : CodeUnits → ℕ
  toLowerCase : CodeUnits → CodeUnits
  /-- The entropy of `Mnemonic::from_phrase`. -/
  fromPhrase : CodeUnits → Option Bytes
  /-- The phrase of `Mnemonic::from_entropy`. -/
  fromEntropy : Bytes → Option CodeUnits

variable {Double Time : Type} (P : Packages Double Time)

/-! ## Presentations -/

structure PaymentLinkFiatSnapshot (Double : Type) where
  amount : Double
  currency : CodeUnits

namespace PaymentLinkFiatSnapshot

def validate (snapshot : PaymentLinkFiatSnapshot Double) : Except String Unit :=
  ensure (P.isFinite snapshot.amount ∧ ¬ P.isNegative snapshot.amount ∧
    snapshot.currency = literal "USD") "Gift Card fiat value is invalid."

def toPayload (snapshot : PaymentLinkFiatSnapshot Double) : Except String (Value Double) := do
  snapshot.validate P
  return .map [(literal "amount", .double snapshot.amount),
    (literal "currency", .string snapshot.currency)]

/-- A `num` as a double. -/
def num? : Value Double → Option Double
  | .int n => some (P.toDouble n)
  | .double x => some x
  | _ => none

def fromPayload : Value Double → Except String (Option (PaymentLinkFiatSnapshot Double))
  | .null => return none
  | .map entries => do
    let amount ← orError (num? P (lookup entries "amount")) "Gift Card fiat value is invalid."
    let currency ← orError (lookup entries "currency").string? "Gift Card fiat value is invalid."
    let snapshot := PaymentLinkFiatSnapshot.mk amount currency
    snapshot.validate P
    return some snapshot
  | _ => .error "Gift Card fiat value is invalid."

end PaymentLinkFiatSnapshot

structure PaymentLinkPresentation (Double : Type) where
  artworkId : Option CodeUnits
  message : Option CodeUnits
  fiatSnapshot : Option (PaymentLinkFiatSnapshot Double)

namespace PaymentLinkPresentation

def maxArtworkIdLength : ℕ := 64

def maxMessageCharacters : ℕ := 128

def maxMessageUtf8Bytes : ℕ := 512

def normalizeOptionalString (value : Option CodeUnits) : Option CodeUnits :=
  (value.map trim).filter (· ≠ [])

def isMessageWithinUtf8ByteLimit (message : Option CodeUnits) : Prop :=
  ∀ text ∈ normalizeOptionalString message, (P.utf8Encode text).length ≤ maxMessageUtf8Bytes

instance (message : Option CodeUnits) : Decidable (isMessageWithinUtf8ByteLimit P message) := by
  unfold isMessageWithinUtf8ByteLimit
  infer_instance

/-- `^[a-zA-Z0-9_-]{1,64}$` -/
def isArtworkId (text : CodeUnits) : Bool :=
  text.all isUrlSafe && 1 ≤ text.length && text.length ≤ maxArtworkIdLength

def validate (artworkId message : Option CodeUnits) : Except String Unit := do
  ensure (∀ text ∈ artworkId, isArtworkId text) "Payment link artwork is invalid."
  ensure (∀ text ∈ message, P.characters text ≤ maxMessageCharacters)
    "Payment link message is too long."
  ensure (isMessageWithinUtf8ByteLimit P message) "Payment link message is too large."

/-- The entries that are not null. -/
def entries (artworkId message : Option CodeUnits) (fiat : Option (Value Double)) :
    List (CodeUnits × Value Double) :=
  (artworkId.map fun text => (literal "artworkId", Value.string text)).toList ++
    (message.map fun text => (literal "message", Value.string text)).toList ++
    (fiat.map fun value => (literal "fiat", value)).toList

def toPayload (presentation : PaymentLinkPresentation Double) :
    Except String (Option (List (CodeUnits × Value Double))) := do
  let normalizedArtworkId := normalizeOptionalString presentation.artworkId
  let normalizedMessage := normalizeOptionalString presentation.message
  validate P normalizedArtworkId normalizedMessage
  if normalizedArtworkId = none ∧ normalizedMessage = none ∧
      presentation.fiatSnapshot.isNone then
    return none
  let fiat ← presentation.fiatSnapshot.mapM (PaymentLinkFiatSnapshot.toPayload P)
  return some (entries normalizedArtworkId normalizedMessage fiat)

def readOptionalString (payload : List (CodeUnits × Value Double)) (key : String) :
    Except String (Option CodeUnits) :=
  match lookup payload key with
  | .null => return none
  | .string text => return normalizeOptionalString (some text)
  | _ => .error s!"Payment link presentation \"{key}\" is invalid."

def fromPayload : Value Double → Except String (Option (PaymentLinkPresentation Double))
  | .null => return none
  | .map payload => do
    let artworkId ← readOptionalString payload "artworkId"
    let message ← readOptionalString payload "message"
    let fiatSnapshot ← PaymentLinkFiatSnapshot.fromPayload P (lookup payload "fiat")
    validate P artworkId message
    if artworkId = none ∧ message = none ∧ fiatSnapshot.isNone then
      return none
    return some { artworkId, message, fiatSnapshot }
  | _ => .error "Payment link presentation is invalid."

end PaymentLinkPresentation

/-! ## Links -/

structure VizorPaymentLink (Double Time : Type) where
  network : CodeUnits
  address : Option CodeUnits
  amountZatoshi : ℤ
  mnemonic : CodeUnits
  birthdayHeight : Int64
  label : CodeUnits
  createdAt : Option Time
  isCreatedAtProvisional : Bool := false
  presentation : Option (PaymentLinkPresentation Double)

namespace VizorPaymentLink

def maxEncodedLength : ℕ := 16 * 1024

def version : Int64 := 2

def legacyVersion : Int64 := 1

def supportsNetwork (network : CodeUnits) : Prop :=
  trim network = literal "main" ∨ (P.regtestEnabled ∧ trim network = literal "regtest")

instance (network : CodeUnits) : Decidable (supportsNetwork P network) := by
  unfold supportsNetwork
  infer_instance

variable (link : VizorPaymentLink Double Time)

/-- `presentation?.toPayload()` -/
def presentationPayload : Except String (Option (List (CodeUnits × Value Double))) :=
  link.presentation.elim (.ok none) (PaymentLinkPresentation.toPayload P)

/-- The established JSON object. -/
def payload (presentation : Option (List (CodeUnits × Value Double))) : Value Double :=
  .map ([(literal "v", .int version), (literal "network", .string (trim link.network)),
    (literal "amountZatoshi", .string (ofInt link.amountZatoshi)),
    (literal "mnemonic", .string (trim link.mnemonic)),
    (literal "birthdayHeight", .int link.birthdayHeight),
    (literal "label", .string (trim link.label))] ++
    (presentation.map fun entries => (literal "presentation", Value.map entries)).toList)

def encodedPayload : Except String CodeUnits := do
  ensure (supportsNetwork P (trim link.network)) "Payment links are only available on mainnet."
  let presentationPayload ← link.presentationPayload P
  let json ← orError (P.jsonEncode (link.payload presentationPayload))
    "JsonUnsupportedObjectError"
  return base64UrlEncode (P.utf8Encode json)

/-- The text of `Uri(scheme: …, host: …, path: …, fragment: …)`. -/
def uriText (fragment : CodeUnits) : CodeUnits :=
  literal "https://" ++ P.host ++ literal "/payment-links/open" ++ literal "#" ++ fragment

/-- `_uri` -/
def uri (fragment : CodeUnits) : Except String CodeUnits := do
  ensure ((uriText P fragment).length ≤ maxEncodedLength) "Payment link is too large."
  return uriText P fragment

def toRecoveryUri : Except String CodeUnits := do
  let payload ← link.encodedPayload P
  uri P (literal "v2=" ++ payload)

def hasSameCanonicalPayload (other : VizorPaymentLink Double Time) : Except String Bool := do
  let own ← link.encodedPayload P
  let others ← other.encodedPayload P
  return own = others

end VizorPaymentLink

end VizorWallet.PaymentLink
