import VizorWallet.Library.Effects
import VizorWallet.PaymentLink.Usage

/-!
# The store of gift cards

`PaymentLinkRecoveryStore`: all cards of the sender in one JSON text, which each operation reads
and writes as a whole. One record that does not read makes the whole text unreadable.

## Main definitions

* `PaymentLinkRecoveryRecord` — a card.
* `recordToJson`, `recordFromJson` — its entry.
* `loadUnlocked`, `writeRecords` — the text.
* `saveDraft`, `markPrepared`, … — the operations.
-/

namespace VizorWallet.PaymentLink

open CodeUnits VizorPaymentLink Effect

inductive StoreError
  /-- `PaymentLinkRecoveryStoreFormatException` -/
  | format (message : String)
  | argumentError (name message : String)
  | stateError (message : String)
  /-- What links, usages and JSON throw. -/
  | other (message : String)

/-! ## Records -/

inductive PaymentLinkRecoveryState
  | draft
  | funded
  | shared
  deriving DecidableEq

namespace PaymentLinkRecoveryState

def name : PaymentLinkRecoveryState → CodeUnits
  | draft => literal "draft"
  | funded => literal "funded"
  | shared => literal "shared"

/-- `PaymentLinkRecoveryState.values.byName` -/
def byName (name : CodeUnits) : Option PaymentLinkRecoveryState :=
  [draft, funded, shared].find? (·.name = name)

@[simp] theorem byName_name (state : PaymentLinkRecoveryState) :
    byName state.name = some state := by
  cases state <;> rfl

end PaymentLinkRecoveryState

structure PaymentLinkRecoveryRecord (Double Time : Type) where
  link : VizorPaymentLink Double Time
  sourceAccountUuid : CodeUnits
  state : PaymentLinkRecoveryState
  updatedAt : Time
  fundingTxids : Option CodeUnits := none
  preparedExpiryHeight : Option Int64 := none
  submittedAtHeight : Option Int64 := none
  usage : GiftCardUsage Time := {}
  claimFeeReserveZatoshi : ℤ

/-- `text?.trim().isNotEmpty ?? false` -/
def isNotBlank (text : Option CodeUnits) : Bool := text.any (trim · ≠ [])

namespace PaymentLinkRecoveryRecord

variable {Double Time : Type} (record : PaymentLinkRecoveryRecord Double Time)

def isAmbiguousSubmission : Bool :=
  record.state = .draft ∧ ¬ isNotBlank record.fundingTxids ∧ record.submittedAtHeight.isSome

def mayHoldUnsharedFunds : Bool :=
  record.state = .funded ∨ (record.state = .draft ∧ record.submittedAtHeight.isSome)

end PaymentLinkRecoveryRecord

namespace VizorPaymentLink

variable {Double Time : Type} (link : VizorPaymentLink Double Time)

/-- The getter of the address. -/
def getAddress : Except StoreError CodeUnits :=
  orError link.address (.stateError "Payment link address has not been derived yet.")

/-- The getter of the creation time. -/
def getCreatedAt : Except StoreError Time :=
  orError link.createdAt (.stateError "Payment link creation time is not known yet.")

def withResolvedMetadata (address : Option CodeUnits) (createdAt : Option Time)
    (isCreatedAtProvisional : Option Bool) : VizorPaymentLink Double Time := { link with
  address := address <|> link.address
  createdAt := createdAt <|> link.createdAt
  isCreatedAtProvisional := isCreatedAtProvisional.getD link.isCreatedAtProvisional }

end VizorPaymentLink

variable {Double Time : Type} (P : RecordPackages Double Time)

/-! ## Entries -/

def recordToJson (record : PaymentLinkRecoveryRecord Double Time) :
    Except StoreError (Value Double) := do
  let link ← (record.link.toRecoveryUri P.toPackages).mapError .other
  let address ← record.link.getAddress
  let createdAt ← record.link.getCreatedAt
  return .map [
    (literal "usage", record.usage.toJson P),
    (literal "link", .string link),
    (literal "address", .string address),
    (literal "createdAt", .string (P.toIso8601String (P.toUtc createdAt))),
    (literal "sourceAccountUuid", .string record.sourceAccountUuid),
    (literal "state", .string record.state.name),
    (literal "fundingTxids", .ofOption .string record.fundingTxids),
    (literal "preparedExpiryHeight", .ofOption .int record.preparedExpiryHeight),
    (literal "submittedAtHeight", .ofOption .int record.submittedAtHeight),
    (literal "claimFeeReserveZatoshi", .string (ofInt record.claimFeeReserveZatoshi)),
    (literal "updatedAt", .string (P.toIso8601String (P.toUtc record.updatedAt)))]

def recordFromJson [DecidableEq Time] (value : Value Double) :
    Except StoreError (PaymentLinkRecoveryRecord Double Time) := do
  let value ← orError value.map? (.format "Recovery record must be a JSON object.")
  let reserve ← orError ((lookup value "claimFeeReserveZatoshi").string? >>= tryParseInteger)
    (.format "Invalid claim fee reserve.")
  ensure (0 ≤ reserve) (.format "Invalid claim fee reserve.")
  let invalid := StoreError.format "Recovery record fields are invalid."
  let linkRaw ← orError (lookup value "link").string? invalid
  let address ← orError (lookup value "address").stringOrNull? invalid
  ensure (address ≠ some []) invalid
  let createdAtRaw ← orError (lookup value "createdAt").stringOrNull? invalid
  let sourceAccountUuid ← orError (lookup value "sourceAccountUuid").string? invalid
  ensure (sourceAccountUuid ≠ []) invalid
  let stateRaw ← orError (lookup value "state").string? invalid
  let fundingTxids ← orError (lookup value "fundingTxids").stringOrNull? invalid
  let preparedExpiryHeight ← orError ((lookup value "preparedExpiryHeight").nullable (·.int?))
    invalid
  ensure (preparedExpiryHeight.all (0 < ·)) invalid
  let submittedAtHeight ← orError ((lookup value "submittedAtHeight").nullable (·.int?))
    invalid
  ensure (submittedAtHeight.all (0 ≤ ·)) invalid
  let updatedAtRaw ← orError (lookup value "updatedAt").string? invalid
  let updatedAt ← orError (P.tryParseDateTime updatedAtRaw)
    (.format "Recovery record timestamp is invalid.")
  let createdAt ← orError
    (createdAtRaw.elim (some none) fun raw => (P.tryParseDateTime raw).map some)
    (.format "Recovery record creation timestamp is invalid.")
  let state ← orError (PaymentLinkRecoveryState.byName stateRaw)
    (.format "Recovery record state is invalid.")
  let hasPreparedTxid := state = .draft ∧ isNotBlank fundingTxids
  ensure (preparedExpiryHeight.isNone ∨ hasPreparedTxid)
    (.format "Prepared recovery metadata is incomplete.")
  let parsedLink ← (parse P.toPackages linkRaw).mapError .other
  ensure ((∀ known ∈ parsedLink.address, ∀ own ∈ address, known = own) ∧
      ∀ known ∈ parsedLink.createdAt, ∀ own ∈ createdAt, known = own)
    (.format "Recovery record link metadata does not match its record.")
  let resolvedAddress ← orError (address <|> parsedLink.address)
    (.format "Recovery record link metadata is missing.")
  let resolvedCreatedAt ← orError (createdAt <|> parsedLink.createdAt)
    (.format "Recovery record link metadata is missing.")
  let usage ← (GiftCardUsage.fromJson P (lookup value "usage")).mapError .other
  return {
    link := parsedLink.withResolvedMetadata (some resolvedAddress) (some resolvedCreatedAt) none
    usage
    claimFeeReserveZatoshi := reserve
    sourceAccountUuid
    state
    fundingTxids
    preparedExpiryHeight
    submittedAtHeight
    updatedAt := P.toUtc updatedAt }

/-! ## The text -/

def withLegacySubmissionMarker (record : PaymentLinkRecoveryRecord Double Time) :
    PaymentLinkRecoveryRecord Double Time :=
  if record.state ≠ .draft ∨ record.submittedAtHeight.isSome ∨ ¬ isNotBlank record.fundingTxids then
    record
  else { record with submittedAtHeight := some 0 }

def storageVersion : Int64 := 1

def submissionMarkersKey : String := "submissionMarkersRecorded"

/-- The body of the `try` block. -/
def decodeText [DecidableEq Time] (raw : CodeUnits) :
    Except StoreError (List (PaymentLinkRecoveryRecord Double Time)) := do
  let decoded ← orError (P.jsonDecode raw) (.other "FormatException")
  let decoded ← orError decoded.map? (.format "Recovery payload must be a JSON object.")
  ensure (isVersion P.toPackages storageVersion (lookup decoded "version"))
    (.format "Recovery payload version is not supported.")
  let items ← orError (lookup decoded "records").list?
    (.format "Recovery payload records are missing.")
  let records ← items.mapM (recordFromJson P)
  if (lookup decoded submissionMarkersKey).bool? = some true then
    return records
  else
    return records.map withLegacySubmissionMarker

/-- Errors that are not of the format are wrapped. -/
def StoreError.wrap : StoreError → StoreError
  | format message => .format message
  | argumentError _ message => .format ("Recovery payload could not be decoded: " ++ message)
  | stateError message => .format ("Recovery payload could not be decoded: " ++ message)
  | other message => .format ("Recovery payload could not be decoded: " ++ message)

/-- The records of a storage. -/
def decodeRecords [DecidableEq Time] (raw : Option CodeUnits) :
    Except StoreError (List (PaymentLinkRecoveryRecord Double Time)) :=
  match raw.filter (trim · ≠ []) with
  | none => return []
  | some raw => (decodeText P raw).mapError StoreError.wrap

/-- The text of records. -/
def encodeRecords (records : List (PaymentLinkRecoveryRecord Double Time)) :
    Except StoreError CodeUnits := do
  let items ← records.mapM (recordToJson P)
  orError (P.jsonEncode (.map [
    (literal "version", .int storageVersion),
    (literal submissionMarkersKey, .bool true),
    (literal "records", .list items)])) (.other "JsonUnsupportedObjectError")

/-- Operations on the stored text. -/
abbrev StoreM (α : Type) := Effect StoreError (Option CodeUnits) α

def loadUnlocked [DecidableEq Time] : StoreM (List (PaymentLinkRecoveryRecord Double Time)) := do
  let raw ← get
  outcome (decodeRecords P raw)

def writeRecords (records : List (PaymentLinkRecoveryRecord Double Time)) : StoreM Unit :=
  if records = [] then
    set (none : Option CodeUnits)
  else do
    let text ← outcome (encodeRecords P records)
    set (some text)

/-! ## Operations

The records that operations find have addresses, so the getter does not throw there. -/

section Records

variable (records : List (PaymentLinkRecoveryRecord Double Time))

def findByAddress (address : CodeUnits) : Option (PaymentLinkRecoveryRecord Double Time) :=
  records.find? (·.link.address = some address)

def findRequired (address : CodeUnits) : StoreM (PaymentLinkRecoveryRecord Double Time) :=
  outcome (orError (findByAddress records address)
    (.stateError "Payment link recovery record was not found."))

def replaceByAddress (replacement : PaymentLinkRecoveryRecord Double Time) :
    List (PaymentLinkRecoveryRecord Double Time) :=
  let replaced := records.map fun record =>
    if record.link.address = replacement.link.address then replacement else record
  if records.any (·.link.address = replacement.link.address) then replaced
  else replaced ++ [replacement]

/-- `records.where((record) => record.link.address != address)` -/
def withoutAddress (address : CodeUnits) : List (PaymentLinkRecoveryRecord Double Time) :=
  records.filter (·.link.address ≠ some address)

end Records

variable [DecidableEq Time]

/-- `updatedAt` is the given time, or now. -/
def saveDraft (link : VizorPaymentLink Double Time) (sourceAccountUuid : CodeUnits)
    (claimFeeReserveZatoshi : ℤ) (updatedAt : Time) :
    StoreM (PaymentLinkRecoveryRecord Double Time) := do
  require (sourceAccountUuid ≠ [])
    (.argumentError "sourceAccountUuid" "Payment link source account is required.")
  let records ← loadUnlocked P
  let address ← outcome link.getAddress
  require (∀ existing ∈ findByAddress records address, existing.state = .draft)
    (.stateError "Payment link recovery cannot replace a funded record with a draft.")
  let record : PaymentLinkRecoveryRecord Double Time := {
    link
    sourceAccountUuid
    claimFeeReserveZatoshi
    state := .draft
    updatedAt := P.toUtc updatedAt }
  writeRecords P (replaceByAddress records record)
  return record

def markFunded (address fundingTxids : CodeUnits) (updatedAt : Time) :
    StoreM (PaymentLinkRecoveryRecord Double Time) := do
  require (trim fundingTxids ≠ [])
    (.argumentError "fundingTxids" "A funded payment link requires a transaction id.")
  let records ← loadUnlocked P
  let existing ← findRequired records address
  require (existing.state = .draft ∨ existing.state = .funded)
    (.stateError "Payment link funding state cannot move backwards.")
  let submittedTxid := trim fundingTxids
  require (¬ (existing.state = .draft ∧ ∃ prepared ∈ existing.fundingTxids, trim prepared ≠ [] ∧
      P.toLowerCase (trim prepared) ≠ P.toLowerCase submittedTxid))
    (.stateError "Payment link funding result does not match the prepared transaction.")
  let updated := { existing with
    state := .funded
    updatedAt := P.toUtc updatedAt
    fundingTxids := some submittedTxid
    preparedExpiryHeight := none }
  writeRecords P (replaceByAddress records updated)
  return updated

/-- `_markSubmissionStarted` -/
def markSubmissionStartedOf (address : CodeUnits) (chainHeight : Int64) (updatedAt : Time)
    (requireRecord : Bool) : StoreM (Option (PaymentLinkRecoveryRecord Double Time)) := do
  require (¬ chainHeight < 0)
    (.argumentError "chainHeight" "A submitted payment link requires a non-negative chain height.")
  let records ← loadUnlocked P
  let existing ←
    if requireRecord then some <$> findRequired records address
    else pure (findByAddress records address)
  match existing with
  | none => return none
  | some existing =>
    if existing.state ≠ .draft then return some existing
    else if existing.submittedAtHeight.isSome then return some existing
    else
      let updated := { existing with
        state := .draft
        updatedAt := P.toUtc updatedAt
        submittedAtHeight := some chainHeight }
      writeRecords P (replaceByAddress records updated)
      return some updated

def markSubmissionStarted (address : CodeUnits) (chainHeight : Int64) (updatedAt : Time) :
    StoreM (Option (PaymentLinkRecoveryRecord Double Time)) :=
  markSubmissionStartedOf P address chainHeight updatedAt true

def markSubmissionStartedIfPresent (address : CodeUnits) (chainHeight : Int64) (now : Time) :
    StoreM (Option (PaymentLinkRecoveryRecord Double Time)) :=
  markSubmissionStartedOf P address chainHeight now false

def markSubmitted (address fundingTxids : CodeUnits) (updatedAt : Time) :
    StoreM (PaymentLinkRecoveryRecord Double Time) := do
  let submittedTxids := trim fundingTxids
  require (submittedTxids ≠ [])
    (.argumentError "fundingTxids" "A submitted payment link requires a transaction id.")
  let records ← loadUnlocked P
  let existing ← findRequired records address
  if existing.state ≠ .draft then return existing
  else
    let existingTxids := (existing.fundingTxids.map trim).filter (· ≠ [])
    require (∀ txids ∈ existingTxids, P.toLowerCase txids = P.toLowerCase submittedTxids)
      (.stateError "Payment link funding was prepared with a different transaction.")
    if existingTxids.isSome ∧ existing.submittedAtHeight.isSome then return existing
    else
      let updated := { existing with
        state := .draft
        updatedAt := P.toUtc updatedAt
        fundingTxids := some (existingTxids.getD submittedTxids)
        submittedAtHeight := some (existing.submittedAtHeight.getD 0) }
      writeRecords P (replaceByAddress records updated)
      return updated

def markPrepared (address fundingTxid : CodeUnits) (expiryHeight : Int64) (updatedAt : Time) :
    StoreM (PaymentLinkRecoveryRecord Double Time) := do
  let normalizedTxid := trim fundingTxid
  require (normalizedTxid ≠ [])
    (.argumentError "fundingTxid" "A prepared payment link requires a transaction id.")
  require (¬ expiryHeight ≤ 0)
    (.argumentError "expiryHeight" "A prepared payment link requires a positive expiry height.")
  let records ← loadUnlocked P
  let existing ← findRequired records address
  require (existing.state = .draft) (.stateError "Only a draft payment link can be prepared.")
  require (∀ txid ∈ (existing.fundingTxids.map trim).filter (· ≠ []),
      P.toLowerCase txid = P.toLowerCase normalizedTxid)
    (.stateError "Payment link funding was prepared with a different transaction.")
  require (existing.preparedExpiryHeight.all (· = expiryHeight))
    (.stateError "Payment link funding was prepared with a different expiry height.")
  let updated := { existing with
    state := .draft
    updatedAt := P.toUtc updatedAt
    fundingTxids := some normalizedTxid
    preparedExpiryHeight := some expiryHeight }
  writeRecords P (replaceByAddress records updated)
  return updated

def markShared (address : CodeUnits) (updatedAt : Time) :
    StoreM (PaymentLinkRecoveryRecord Double Time) := do
  let records ← loadUnlocked P
  let existing ← findRequired records address
  require (existing.state = .funded ∨ existing.state = .shared)
    (.stateError "Only a funded payment link can be marked shared.")
  let updated := { existing with state := .shared, updatedAt := P.toUtc updatedAt }
  writeRecords P (replaceByAddress records updated)
  return updated

/-- A removal that a record with the address may refuse. -/
def removeIf (address : CodeUnits) (removable : PaymentLinkRecoveryRecord Double Time → Bool)
    (message : String) : StoreM Unit := do
  let records ← loadUnlocked P
  match findByAddress records address with
  | none => return
  | some existing =>
    require (removable existing) (.stateError message)
    writeRecords P (withoutAddress records address)

def removeUnsubmittedDraft (address : CodeUnits) : StoreM Unit :=
  removeIf P address
    (fun existing => existing.state = .draft ∧ ¬ isNotBlank existing.fundingTxids ∧
      existing.preparedExpiryHeight.isNone ∧ existing.submittedAtHeight.isNone)
    "Only an unsubmitted payment link draft can be removed."

def removeUnbroadcastDraft (address : CodeUnits) : StoreM Unit :=
  removeIf P address (fun existing => existing.state = .draft ∧ ¬ existing.isAmbiguousSubmission)
    "Only an unbroadcast payment link draft can be removed."

def removeUnsubmittedPreparedDraft (address : CodeUnits) : StoreM Unit :=
  removeIf P address
    (fun existing => existing.state = .draft ∧ isNotBlank existing.fundingTxids ∧
      existing.submittedAtHeight.isNone)
    "Only an unsubmitted prepared payment link draft can be removed."

def removeUnsubmittedDraftsForAccount (sourceAccountUuid : CodeUnits) : StoreM ℕ := do
  let records ← loadUnlocked P
  let kept := records.filter fun record => record.sourceAccountUuid ≠ sourceAccountUuid ∨
    record.state ≠ .draft ∨ record.mayHoldUnsharedFunds
  let removed := records.length - kept.length
  if 0 < removed then
    writeRecords P kept
    return removed
  else
    return removed

def removeUnsharedExpiredFunding (address fundingTxids : CodeUnits) : StoreM Unit :=
  removeIf P address
    (fun existing => existing.state = .funded ∧
      existing.fundingTxids.map (P.toLowerCase ∘ trim) = some (P.toLowerCase (trim fundingTxids)))
    "Only the matching unshared expired funding can be removed."

def updateUsage (expected : PaymentLinkRecoveryRecord Double Time) (usage : GiftCardUsage Time) :
    StoreM Bool := do
  let records ← loadUnlocked P
  let address ← outcome expected.link.getAddress
  match findByAddress records address with
  | none => return false
  | some current =>
    let same ← outcome
      ((current.link.hasSameCanonicalPayload P.toPackages expected.link).mapError .other)
    if ¬ same then return false
    else if current.fundingTxids ≠ expected.fundingTxids then return false
    else
      let own ← outcome
        (orError (P.jsonEncode (current.usage.toJson P)) (.other "JsonUnsupportedObjectError"))
      let other ← outcome
        (orError (P.jsonEncode (expected.usage.toJson P)) (.other "JsonUnsupportedObjectError"))
      if own ≠ other then return false
      else
        let _ ← outcome ((GiftCardUsage.fromJson P (usage.toJson P)).mapError StoreError.other)
        writeRecords P (replaceByAddress records { current with usage })
        return true

end VizorWallet.PaymentLink
