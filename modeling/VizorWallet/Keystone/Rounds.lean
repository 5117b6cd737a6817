import VizorWallet.Keystone.CompactSignatures
import VizorWallet.Library.Bisection
import VizorWallet.Library.CutBatches

/-!
# Signing rounds

A batch of transactions is signed in rounds, each small enough for a QR code and for the memory of
the signer. The rounds are cut before the first of them is shown, with an identifier that is at
least as long as those that the rounds get.

## Main definitions

* `BatchCodec` — the formats that other code reads and writes.
* `zcashSignBatchRoundMessageCounts` — the sizes of the rounds.
* `encodeZcashSignBatchUrParts` — the encoder of one round.
-/

namespace VizorWallet.Keystone

structure ZcashBatchMessageInput where
  id : String
  pcztBytes : Bytes
  expectedSignatureCount : UInt32
  deriving DecidableEq

/-- Transactions, the requests that hold them, the envelope of a request under an identifier, and
the parts of a QR code. -/
structure BatchCodec (Pczt : Type) where
  parse : Bytes → Except String Pczt
  resolveFields : Pczt → Except String Pczt
  serialize : List Pczt → Except String Bytes
  envelope : Bytes → Bytes → Except String Bytes
  urParts : Bytes → ℕ → Except String (List String)

def zcashSignBatchMaxMessages : ℕ := 40

def zcashSignBatchMaxCompactCborBytes : ℕ := 80 * 1024

def zcashSignBatchMaxTotalBytes : ℕ := 466 * 1024

def zcashSignBatchMaxResolvedTotalBytes : ℕ := zcashSignBatchMaxTotalBytes

/-- The checks of a message against the identifiers and payloads before it. -/
def checkMessage (ids : List String) (payloads : List Bytes) (message : ZcashBatchMessageInput) :
    Except String Unit := do
  ensure (message.id ≠ "") "Zcash batch message id must not be empty"
  ensure (message.id ∉ ids) s!"Duplicate Zcash batch message id {message.id}"
  ensure (message.pcztBytes ≠ []) s!"Zcash batch message {message.id} has an empty payload"
  ensure (message.pcztBytes ∉ payloads) "Duplicate Zcash batch payload"

/-- `checked_add` on `usize` -/
def addUsize (a b : ℕ) (error : String) : Except String ℕ := orError (checkedUsize (a + b)) error

/-- `usize` addition that stops at the greatest value. -/
def saturatingAdd (a b : ℕ) : ℕ := min (a + b) (2 ^ 64 - 1)

section Codec

variable {Pczt : Type} (codec : BatchCodec Pczt)

def parseMessage (message : ZcashBatchMessageInput) : Except String Pczt :=
  (codec.parse message.pcztBytes).mapError fun e =>
    s!"Invalid PCZT for batch message {message.id}: {e}"

/-- The loop of `encodeZcashSignBatchPostcard` over the messages. -/
def collectPczts : List String → List Bytes → ℕ → ℕ → List ZcashBatchMessageInput →
    Except String (List Pczt)
  | _, _, _, _, [] => .ok []
  | ids, payloads, totalPayloadBytes, totalSignatureCount, message :: rest => do
    checkMessage ids payloads message
    let totalPayloadBytes ← addUsize totalPayloadBytes message.pcztBytes.length
      "Zcash batch payload byte count overflow"
    ensure (totalPayloadBytes ≤ zcashSignBatchMaxTotalBytes)
      s!"Zcash batch PCZTs exceed {zcashSignBatchMaxTotalBytes} bytes"
    let pczt ← parseMessage codec message
    let totalSignatureCount ← addUsize totalSignatureCount message.expectedSignatureCount.toNat
      "Zcash batch signature count overflow"
    ensure (totalSignatureCount ≤ zcashSignBatchMaxSignatures)
      s!"Zcash batch expects more than {zcashSignBatchMaxSignatures} spend signatures"
    let pczts ← collectPczts (message.id :: ids) (message.pcztBytes :: payloads) totalPayloadBytes
      totalSignatureCount rest
    return pczt :: pczts

def encodeZcashSignBatchPostcard (messages : List ZcashBatchMessageInput) :
    Except String Bytes := do
  ensure (messages ≠ [] ∧ messages.length ≤ zcashSignBatchMaxMessages)
    s!"Zcash batch requires 1 to {zcashSignBatchMaxMessages} messages"
  let pczts ← collectPczts codec [] [] 0 0 messages
  (codec.serialize pczts).mapError fun e => s!"Encode PCZT batch signing request: {e}"

/-- The envelope of one round, and its parts. -/
def encodeZcashSignBatchUrParts (requestId : Bytes) (messages : List ZcashBatchMessageInput)
    (maxFragmentLen : ℕ) : Except String (List String) := do
  ensure (requestId ≠ []) "Zcash batch request id must not be empty"
  let postcard ← encodeZcashSignBatchPostcard codec messages
  ensure (saturatingAdd requestId.length postcard.length ≤ zcashSignBatchMaxTotalBytes)
    s!"Zcash batch request exceeds {zcashSignBatchMaxTotalBytes} bytes"
  let cbor ← (codec.envelope requestId postcard).mapError fun e =>
    s!"Encode zcash-sign-batch CBOR envelope: {e}"
  ensure (cbor.length ≤ zcashSignBatchMaxCompactCborBytes)
    s!"Zcash batch QR request exceeds {zcashSignBatchMaxCompactCborBytes} bytes"
  codec.urParts cbor maxFragmentLen

/-! ## The sizes of the rounds -/

structure PreparedZcashBatchMessage (Pczt : Type) where
  compactPczt : Pczt
  resolvedPczt : Pczt
  compactPayloadLen : ℕ
  expectedSignatureCount : ℕ

structure ZcashSignBatchRoundSize where
  compactPayloadBytes : ℕ
  compactRequestBytes : ℕ
  compactCborBytes : ℕ
  resolvedRequestBytes : ℕ
  expectedSignatureCount : ℕ

def ZcashSignBatchRoundSize.fits (size : ZcashSignBatchRoundSize) (requestIdLen : ℕ) : Bool :=
  size.compactPayloadBytes ≤ zcashSignBatchMaxTotalBytes ∧
    saturatingAdd requestIdLen size.compactRequestBytes ≤ zcashSignBatchMaxTotalBytes ∧
    size.compactCborBytes ≤ zcashSignBatchMaxCompactCborBytes ∧
    saturatingAdd requestIdLen size.resolvedRequestBytes ≤ zcashSignBatchMaxResolvedTotalBytes ∧
    size.expectedSignatureCount ≤ zcashSignBatchMaxSignatures

/-- A message whose checks have passed. -/
def prepareMessage (message : ZcashBatchMessageInput) :
    Except String (PreparedZcashBatchMessage Pczt) := do
  let compactPczt ← parseMessage codec message
  let resolvedPczt ← (codec.resolveFields compactPczt).mapError fun e =>
    s!"Resolve PCZT fields for batch message {message.id}: {e}"
  return { compactPczt, resolvedPczt
           compactPayloadLen := message.pcztBytes.length
           expectedSignatureCount := message.expectedSignatureCount.toNat }

/-- The loop of `prepareZcashBatchMessages`. -/
def prepareFrom : List String → List Bytes → List ZcashBatchMessageInput →
    Except String (List (PreparedZcashBatchMessage Pczt))
  | _, _, [] => .ok []
  | ids, payloads, message :: rest => do
    checkMessage ids payloads message
    let prepared ← prepareMessage codec message
    let others ← prepareFrom (message.id :: ids) (message.pcztBytes :: payloads) rest
    return prepared :: others

def prepareZcashBatchMessages (messages : List ZcashBatchMessageInput) :
    Except String (List (PreparedZcashBatchMessage Pczt)) :=
  prepareFrom codec [] [] messages

def zcashSignBatchRoundSize (messages : List (PreparedZcashBatchMessage Pczt))
    (requestIdLen : ℕ) : Except String ZcashSignBatchRoundSize := do
  let compactPayloadBytes ← (messages.map (·.compactPayloadLen)).foldlM
    (addUsize · · "Zcash batch payload byte count overflow") 0
  let expectedSignatureCount ← (messages.map (·.expectedSignatureCount)).foldlM
    (addUsize · · "Zcash batch signature count overflow") 0
  let compactRequest ← (codec.serialize (messages.map (·.compactPczt))).mapError fun e =>
    s!"Encode compact PCZT batch signing request: {e}"
  let compactCbor ← (codec.envelope (List.replicate requestIdLen 0x72) compactRequest).mapError
    fun e => s!"Encode compact zcash-sign-batch envelope: {e}"
  let resolvedRequest ← (codec.serialize (messages.map (·.resolvedPczt))).mapError fun e =>
    s!"Encode resolved PCZT batch signing request: {e}"
  return { compactPayloadBytes
           compactRequestBytes := compactRequest.length
           compactCborBytes := compactCbor.length
           resolvedRequestBytes := resolvedRequest.length
           expectedSignatureCount }

/-- The identifier of a round. -/
def roundRequestId (requestId : Bytes) (round rounds : ℕ) : Bytes :=
  requestId ++ ascii "-round-" ++ decimal round ++ ascii "-of-" ++ decimal rounds

/-- The size of the first messages, when they fit. -/
def probeRound (requestIdLen : ℕ) (remaining : List (PreparedZcashBatchMessage Pczt))
    (candidateCount : ℕ) : Except String (Option ZcashSignBatchRoundSize) := do
  let size ← zcashSignBatchRoundSize codec (remaining.take candidateCount) requestIdLen
  return if size.fits requestIdLen then some size else none

/-- The loop over the rounds. `none` when the fuel is used up. -/
def countRounds (requestIdLen roundLimit : ℕ) : ℕ →
    List (ZcashBatchMessageInput × PreparedZcashBatchMessage Pczt) →
    Option (Except String (List ℕ))
  | _, [] => some (.ok [])
  | 0, _ :: _ => none
  | fuel + 1, (first, message) :: rest =>
    let remaining := message :: rest.map Prod.snd
    let maxCount := min remaining.length roundLimit
    match bisect (probeRound codec requestIdLen remaining) maxCount 1 maxCount none with
    | none => none
    | some (.error e) => some (.error e)
    | some (.ok none) => some (.error
        s!"Zcash batch message {first.id} exceeds Keystone's signing round limits")
    | some (.ok (some (count, _))) =>
      match countRounds requestIdLen roundLimit fuel (((first, message) :: rest).drop count) with
      | none => none
      | some counts => some (counts.map (count :: ·))

def zcashSignBatchRoundMessageCounts (requestId : Bytes) (messages : List ZcashBatchMessageInput)
    (maxMessages : ℕ) : Option (Except String (List ℕ)) :=
  if requestId = [] then some (.error "Zcash batch request id must not be empty")
  else if messages = [] then some (.ok [])
  else if maxMessages = 0 then
    some (.error "Zcash signing round message limit must be positive")
  else
    match prepareZcashBatchMessages codec messages with
    | .error e => some (.error e)
    | .ok prepared =>
      let roundLimit := min maxMessages zcashSignBatchMaxMessages
      let maxRoundRequestIdLen := (roundRequestId requestId messages.length messages.length).length
      countRounds codec maxRoundRequestIdLen roundLimit messages.length (messages.zip prepared)

end Codec

end VizorWallet.Keystone
