import VizorWallet.PaymentLink.Link

/-!
# Compact links and the parser of links

The version 3 form carries the entropy of the mnemonic and a positional JSON list without its
trailing nulls. The parser takes all three versions.

## Main definitions

* `VizorPaymentLink.toShareUri` — the version 3 form.
* `VizorPaymentLink.parse` — the link of a text.
-/

namespace VizorWallet.PaymentLink

open CodeUnits

variable {Double Time : Type} (P : Packages Double Time)

/-! ## Entropy -/

/-- `mnemonic_to_entropy` -/
def mnemonicToEntropy (phrase : CodeUnits) : Option Bytes := do
  guard ((P.utf8Encode phrase).length ≤ 512)
  let entropy ← P.fromPhrase phrase
  let canonical ← P.fromEntropy entropy
  -- other white space between the words is refused
  guard (canonical = phrase)
  return entropy

/-- `mnemonic_from_entropy` -/
def mnemonicFromEntropy (entropy : Bytes) : Option CodeUnits := do
  guard (entropy.length ∈ [16, 20, 24, 28, 32])
  P.fromEntropy entropy

/-! ## The compact codec -/

namespace CompactPaymentLinkCodec

def entropyLengths : List ℕ := [16, 20, 24, 28, 32]

def defaultLabel : CodeUnits := literal "Payment link"

def maxAmount : ℤ := 21000000 * 100000000

def invalid : String := "Gift link payload is invalid or unsupported."

def validateRequired (network : CodeUnits) (height : Int64) (amount : ℤ) : Except String Unit :=
  ensure (VizorPaymentLink.supportsNetwork P network ∧ ¬ height ≤ 0 ∧ ¬ 0xffffffff < height ∧
    ¬ amount ≤ 0 ∧ ¬ maxAmount < amount) invalid

def encodeBase64 (bytes : Bytes) : CodeUnits := (base64UrlEncode bytes).filter (· ≠ 0x3d)

def decodeBase64 (encoded : CodeUnits) : Except String Bytes := do
  ensure (encoded ≠ [] ∧ encoded.all isUrlSafe) invalid
  let bytes ← orError (P.base64Decode encoded) invalid
  ensure (encodeBase64 bytes = encoded) invalid
  return bytes

/-- Null, or the text of an option. -/
def optionalString (text : Option CodeUnits) : Value Double := text.elim .null .string

/-- Null, or the number of an option. -/
def optionalDouble (x : Option Double) : Value Double := x.elim .null .double

/-- Remove the last entry while it is null and not one of the first four. -/
def removeTrailingNulls (payload : List (Value Double)) : List (Value Double) :=
  if 4 < payload.length ∧ (payload.getLast?.map Value.isNull).getD false then
    removeTrailingNulls payload.dropLast
  else payload
termination_by payload.length
decreasing_by simp only [List.length_dropLast]; omega

/-- The entries at their positions. -/
def positions (network : CodeUnits) (entropy : Bytes) (link : VizorPaymentLink Double Time)
    (presentation : Option (List (CodeUnits × Value Double))) : List (Value Double) :=
  [.string network, .string (encodeBase64 entropy), .int link.birthdayHeight,
    .string (ofInt link.amountZatoshi),
    lookup (presentation.getD []) "artworkId",
    optionalDouble ((link.presentation.bind (·.fiatSnapshot)).map (·.amount)),
    lookup (presentation.getD []) "message",
    optionalString (if trim link.label = defaultLabel then none else some (trim link.label))]

/-- The body of `encode`. -/
def encodeBody (link : VizorPaymentLink Double Time) (mnemonic : Option CodeUnits) :
    Except String CodeUnits := do
  let network := trim link.network
  validateRequired P network link.birthdayHeight link.amountZatoshi
  let presentation ← link.presentationPayload P
  let entropy ← orError (mnemonicToEntropy P (mnemonic.getD (trim link.mnemonic))) invalid
  ensure (entropy.length ∈ entropyLengths) invalid
  let payload := removeTrailingNulls (positions network entropy link presentation)
  let json ← orError (P.jsonEncode (.list payload)) invalid
  return encodeBase64 (P.utf8Encode json)

def encode (link : VizorPaymentLink Double Time) (mnemonic : Option CodeUnits) :
    Except String CodeUnits :=
  (encodeBody P link mnemonic).mapError fun _ => invalid

/-- The body of `decode` before the link is tried in its recovery form. -/
def decodePayload (encoded : CodeUnits) : Except String (VizorPaymentLink Double Time) := do
  ensure (encoded.length ≤ VizorPaymentLink.maxEncodedLength) invalid
  let bytes ← decodeBase64 P encoded
  let text ← orError (P.utf8Decode bytes) invalid
  let json ← orError (P.jsonDecode text) invalid
  let payload ← orError json.list? invalid
  ensure (4 ≤ payload.length ∧ payload.length ≤ 8) invalid
  let network ← orError (payload.getD 0 .null).string? invalid
  let encodedEntropy ← orError (payload.getD 1 .null).string? invalid
  ensure (encodedEntropy.length ≤ 43) invalid
  let height ← orError (payload.getD 2 .null).int? invalid
  let amountText ← orError (payload.getD 3 .null).string? invalid
  ensure (isPositiveDecimal amountText) invalid
  let amount ← orError (tryParseInteger amountText) invalid
  validateRequired P (trim network) height amount
  let entropy ← decodeBase64 P encodedEntropy
  ensure (entropy.length ∈ entropyLengths) invalid
  let artwork := payload.getD 4 .null
  let fiat := payload.getD 5 .null
  let message := payload.getD 6 .null
  let label ← orError (payload.getD 7 .null).stringOrNull? invalid
  let presentation ← PaymentLinkPresentation.fromPayload P (.map
    [(literal "artworkId", artwork), (literal "message", message),
      (literal "fiat", if fiat.isNull then .null
        else .map [(literal "amount", fiat), (literal "currency", .string (literal "USD"))])])
  let mnemonic ← orError (mnemonicFromEntropy P entropy) invalid
  return {
    network := trim network
    address := none
    amountZatoshi := amount
    mnemonic
    birthdayHeight := height
    label := (label.map trim).getD defaultLabel
    createdAt := none
    presentation }

def decode (encoded : CodeUnits) : Except String (VizorPaymentLink Double Time) :=
  Except.mapError (fun _ => invalid) do
    let link ← decodePayload P encoded
    let _ ← link.toRecoveryUri P
    return link

end CompactPaymentLinkCodec

/-! ## Sharing and parsing -/

namespace VizorPaymentLink

open CompactPaymentLinkCodec

def toShareUri (link : VizorPaymentLink Double Time) : Except String CodeUnits := do
  let payload ← encode P link none
  uri P (literal "v3=" ++ payload)

/-- The established form where the mnemonic has other white space than the compact form keeps. -/
def toLegacyWhitespaceShareUri (link : VizorPaymentLink Double Time) :
    Except String (Option CodeUnits) := do
  let original := trim link.mnemonic
  let canonical := [0x20].intercalate (splitSpaces original)
  if canonical = original then
    return none
  ensure link.address.isSome "Gift card address could not be verified."
  -- the compact form is tried for its checks only
  let payload ← encode P link (some canonical)
  let _ ← uri P (literal "v3=" ++ payload)
  let recovery ← link.toRecoveryUri P
  return some recovery

/-- The URI is the endpoint of links. -/
def matchesEndpoint (uri : Uri) : Prop :=
  P.toLowerCase uri.scheme = literal "https" ∧ P.toLowerCase uri.host = P.host ∧
    uri.userInfo = [] ∧ ¬ uri.hasPort ∧ uri.path = literal "/payment-links/open"

instance (uri : Uri) : Decidable (matchesEndpoint P uri) := by
  unfold matchesEndpoint
  infer_instance

def readString (payload : List (CodeUnits × Value Double)) (key : String) :
    Except String CodeUnits :=
  match lookup payload key with
  | .string text => return trim text
  | _ => .error s!"Payment link is missing \"{key}\"."

def readInt (payload : List (CodeUnits × Value Double)) (key : String) : Except String Int64 :=
  match lookup payload key with
  | .int n => return n
  | .string text => orError (P.tryParseInt (trim text)) s!"Payment link \"{key}\" is invalid."
  | _ => .error s!"Payment link \"{key}\" is invalid."

def readBigInt (payload : List (CodeUnits × Value Double)) (key : String) : Except String ℤ :=
  match lookup payload key with
  | .int n => return n.toInt
  | .string text => orError (tryParseInteger (trim text)) s!"Payment link \"{key}\" is invalid."
  | _ => .error s!"Payment link \"{key}\" is invalid."

/-- `value == version` -/
def isVersion (expected : Int64) : Value Double → Bool
  | .int n => n == expected
  | .double x => P.equalsInt x expected
  | _ => false

/-- `expectedVersion == _legacyVersion ? field : null` -/
def legacyOnly {α : Type} (expectedVersion : Int64) (field : Except String α) :
    Except String (Option α) :=
  if expectedVersion = legacyVersion then some <$> field else return none

/-- `parse` of the payload behind `v1=` or `v2=`. -/
def parsePayload (expectedVersion : Int64) (encoded : CodeUnits) :
    Except String (VizorPaymentLink Double Time) := do
  ensure (encoded ≠ [] ∧ 0x26 ∉ encoded) "Payment link payload is invalid."
  let decodedJson ← orError ((P.base64Decode encoded >>= P.utf8Decode) >>= P.jsonDecode)
    "Payment link payload could not be read."
  let payload ← orError decodedJson.map? "Payment link payload is invalid."
  ensure (isVersion P expectedVersion (lookup payload "v"))
    "Payment link version is not supported."
  let network ← readString payload "network"
  let amountZatoshi ← readBigInt payload "amountZatoshi"
  let mnemonic ← readString payload "mnemonic"
  let birthdayHeight ← readInt P payload "birthdayHeight"
  let label ← readString payload "label"
  let address ← legacyOnly expectedVersion (readString payload "address")
  let createdAtRaw ← legacyOnly expectedVersion (readString payload "createdAt")
  let createdAt := createdAtRaw.bind P.tryParseDateTime
  let presentation ← PaymentLinkPresentation.fromPayload P (lookup payload "presentation")
  ensure (supportsNetwork P network) "Payment link network is not supported."
  ensure (address ≠ some []) "Payment link address is missing."
  ensure (¬ amountZatoshi ≤ 0) "Payment link amount is invalid."
  ensure (¬ wordCount mnemonic < 12) "Payment link recovery phrase is invalid."
  ensure (¬ birthdayHeight ≤ 0) "Payment link birthday height is invalid."
  ensure (¬ (createdAtRaw.isSome ∧ createdAt.isNone)) "Payment link timestamp is invalid."
  return { network := network, address, amountZatoshi, mnemonic, birthdayHeight, label, createdAt,
           presentation }

def parse (rawLink : CodeUnits) : Except String (VizorPaymentLink Double Time) := do
  let trimmed := trim rawLink
  ensure (trimmed.length ≤ maxEncodedLength) "Payment link is too large."
  let uri ← orError ((P.tryParseUri trimmed).filter (matchesEndpoint P ·))
    "This is not a Vizor payment link."
  ensure (uri.userInfo = [] ∧ ¬ uri.hasPort ∧ ¬ uri.hasQuery) "Payment link URL is invalid."
  let fragment := uri.fragment
  if (literal "v3=").isPrefixOf fragment then
    decode P (fragment.drop 3)
  else if (literal "v2=").isPrefixOf fragment then
    parsePayload P version (fragment.drop 3)
  else if (literal "v1=").isPrefixOf fragment then
    parsePayload P legacyVersion (fragment.drop 3)
  else .error "Payment link is missing its payload."

end VizorPaymentLink

end VizorWallet.PaymentLink
