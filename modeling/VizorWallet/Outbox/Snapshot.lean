import VizorWallet.Library.Bytes
import VizorWallet.Library.FirstMatch
import VizorWallet.Library.Outcome
import VizorWallet.Machine

/-!
# The background outbox

The phone keeps signed migration transactions in an outbox that it submits without the app.  A
batch belongs to a run and holds one item for each transaction; a receipt tells the wallet how an
item ended.

## Main definitions

* `Item`, `Batch`, `Receipt`, `Snapshot` — the stored data.
* `Snapshot.stage`, `Snapshot.armBatch`, `Snapshot.recoverBatch` — batches that the app hands over.
* `Snapshot.expireItems`, `Snapshot.markDueItemsNeedingResign`, `Snapshot.selectDue` — what the
  runner does at a height.
-/

namespace VizorWallet.Outbox

/-- Seconds. -/
abbrev Date := ℤ

inductive OutboxError where
  | invalidBatch
  | conflictingBatch
  | batchNotFound
  | itemNotFound
  | invalidArmRequest
  | invalidTransition
  | invalidSchedule
  deriving DecidableEq

inductive ItemStatus where
  | staged
  | armed
  | submitting
  | acceptedAwaitingReconciliation
  | rejectedAwaitingReconciliation
  | expiredAwaitingReconciliation
  | needsResignAwaitingReconciliation
  deriving DecidableEq

inductive ReceiptOutcome where
  | accepted
  | acceptedEquivalent
  | rejected
  | expired
  | needsResign
  deriving DecidableEq

namespace ReceiptOutcome

def rawValue : ReceiptOutcome → String
  | accepted => "accepted"
  | acceptedEquivalent => "acceptedEquivalent"
  | rejected => "rejected"
  | expired => "expired"
  | needsResign => "needsResign"

/-- Outcomes that retire the batch. -/
def isTerminal : ReceiptOutcome → Bool
  | rejected | expired | needsResign => true
  | accepted | acceptedEquivalent => false

end ReceiptOutcome

structure Item where
  itemId : String
  partIndex : ℕ
  txidHex : String
  rawTransaction : Bytes
  payloadDigestHex : String
  anchorBoundaryHeight : ℕ
  scheduledHeight : ℕ
  scheduleStartHeight : ℕ
  expiryHeight : ℕ
  status : ItemStatus := .staged
  attemptCount : ℕ := 0
  attemptId : Option String := none
  attemptStartedAt : Option Date := none
  nextAttemptAt : Option Date := none
  lastError : Option String := none
  deriving DecidableEq

structure Batch where
  batchId : String
  network : String
  accountUuid : String
  runId : String
  lightwalletdUrl : String
  timingMeanBlocks : ℕ
  timingMaxBlocks : ℕ
  armedAt : Option Date := none
  nextProofHeight : Option ℕ := none
  proofReadyNotificationPendingAt : Option Date := none
  proofReadyNotifiedAt : Option Date := none
  proofReadyHeightNoticePendingAt : Option Date := none
  proofReadyHeightNoticedAt : Option Date := none
  broadcastCompleteNotificationPendingAt : Option Date := none
  broadcastCompleteNotifiedAt : Option Date := none
  items : List Item
  deriving DecidableEq

def Batch.scopeKey (batch : Batch) : String := batch.network ++ ":" ++ batch.accountUuid

structure ScheduleUpdate where
  itemId : String
  scheduledHeight : ℕ
  scheduleStartHeight : ℕ
  deriving DecidableEq

structure Receipt where
  receiptId : String
  batchId : String
  itemId : String
  network : String
  accountUuid : String
  runId : String
  txidHex : String
  outcome : ReceiptOutcome
  remoteHeight : ℕ
  responseCode : Option ℤ
  responseMessage : Option String
  recordedAt : Date
  scheduleUpdates : List ScheduleUpdate
  deriving DecidableEq

structure Selection where
  batchId : String
  accountUuid : String
  scopeKey : String
  lightwalletdUrl : String
  item : Item

@[ext] structure Snapshot where
  batches : List Batch := []
  receipts : List Receipt := []
  lastAttemptedScopeKey : Option String := none
  announcedBroadcastCompleteBatchIds : List String := []
  deriving DecidableEq

/-- The waiting time after an attempt. -/
def retryDelay (attemptCount : ℕ) : ℤ :=
  if attemptCount ≤ 1 then 60
  else if attemptCount = 2 then 5 * 60
  else if attemptCount = 3 then 15 * 60
  else 60 * 60

/-- The receipt of an item. -/
def makeReceipt (batch : Batch) (item : Item) (outcome : ReceiptOutcome) (remoteHeight : ℕ)
    (responseCode : Option ℤ) (responseMessage : Option String)
    (scheduleUpdates : List ScheduleUpdate) (date : Date) : Receipt where
  receiptId := batch.batchId ++ ":" ++ item.itemId ++ ":" ++ outcome.rawValue
  batchId := batch.batchId
  itemId := item.itemId
  network := batch.network
  accountUuid := batch.accountUuid
  runId := batch.runId
  txidHex := item.txidHex
  outcome
  remoteHeight
  responseCode
  responseMessage
  recordedAt := date
  scheduleUpdates

/-! ## Staging -/

section Stage

variable (digestHex : Bytes → String)

/-- The checks of an incoming batch. -/
def Batch.Stageable (batch : Batch) : Prop :=
  batch.batchId ≠ "" ∧ batch.network ≠ "" ∧ batch.accountUuid ≠ "" ∧ batch.runId ≠ "" ∧
  batch.lightwalletdUrl ≠ "" ∧ 0 < batch.timingMeanBlocks ∧ 0 < batch.timingMaxBlocks ∧
  batch.timingMeanBlocks ≤ batch.timingMaxBlocks ∧
  (batch.items ≠ [] ∨ batch.nextProofHeight.isSome) ∧
  batch.proofReadyNotificationPendingAt = none ∧ batch.proofReadyNotifiedAt = none ∧
  batch.proofReadyHeightNoticePendingAt = none ∧ batch.proofReadyHeightNoticedAt = none ∧
  batch.broadcastCompleteNotificationPendingAt = none ∧
  batch.broadcastCompleteNotifiedAt = none ∧
  (batch.items.map Item.itemId).Nodup ∧ (batch.items.map Item.txidHex).Nodup ∧
  ∀ item ∈ batch.items, item.itemId ≠ "" ∧ item.txidHex ≠ "" ∧ item.rawTransaction ≠ [] ∧
    item.payloadDigestHex = digestHex item.rawTransaction ∧
    item.scheduledHeight < item.expiryHeight ∧ item.status = .staged

instance (batch : Batch) : Decidable (batch.Stageable digestHex) := by
  unfold Batch.Stageable
  infer_instance

/-- An item is in flight. -/
def Batch.isSubmitting (batch : Batch) : Bool := batch.items.any (·.status = .submitting)

/-- The incoming items that a batch does not have yet. -/
def newItems (existing : List Item) : List Item → Except OutboxError (List Item)
  | [] => .ok []
  | incoming :: rest =>
    match existing.find? (·.itemId = incoming.itemId) with
    | some item => do
      ensure (item.partIndex = incoming.partIndex ∧ item.txidHex = incoming.txidHex ∧
          item.payloadDigestHex = incoming.payloadDigestHex ∧
          item.anchorBoundaryHeight = incoming.anchorBoundaryHeight ∧
          item.expiryHeight = incoming.expiryHeight)
        OutboxError.conflictingBatch
      newItems existing rest
    | none => do
      ensure (¬ existing.any fun item =>
          item.txidHex = incoming.txidHex ∨ item.partIndex = incoming.partIndex)
        OutboxError.conflictingBatch
      let added ← newItems existing rest
      return incoming :: added

/-- A batch that is staged again: its endpoint, cadence and proof height are the new ones, and it
gains the items that it does not have. -/
def Batch.restage (existing batch : Batch) : Except OutboxError Batch := do
  ensure (existing.network = batch.network ∧ existing.accountUuid = batch.accountUuid ∧
      existing.runId = batch.runId)
    OutboxError.conflictingBatch
  ensure (existing.lightwalletdUrl = batch.lightwalletdUrl ∨ ¬ existing.isSubmitting)
    OutboxError.conflictingBatch
  ensure ((existing.timingMeanBlocks = batch.timingMeanBlocks ∧
      existing.timingMaxBlocks = batch.timingMaxBlocks) ∨ ¬ existing.isSubmitting)
    OutboxError.conflictingBatch
  let added ← newItems existing.items batch.items
  let sameProof := existing.nextProofHeight = batch.nextProofHeight
  let unchanged := added = [] ∧ sameProof
  return { existing with
    lightwalletdUrl := batch.lightwalletdUrl
    timingMeanBlocks := batch.timingMeanBlocks
    timingMaxBlocks := batch.timingMaxBlocks
    items := existing.items ++ added
    nextProofHeight := batch.nextProofHeight
    proofReadyNotificationPendingAt :=
      if sameProof then existing.proofReadyNotificationPendingAt else none
    proofReadyNotifiedAt := if sameProof then existing.proofReadyNotifiedAt else none
    proofReadyHeightNoticePendingAt :=
      if sameProof then existing.proofReadyHeightNoticePendingAt else none
    proofReadyHeightNoticedAt := if sameProof then existing.proofReadyHeightNoticedAt else none
    broadcastCompleteNotificationPendingAt :=
      if unchanged then existing.broadcastCompleteNotificationPendingAt else none
    broadcastCompleteNotifiedAt :=
      if unchanged then existing.broadcastCompleteNotifiedAt else none }

def Snapshot.stage (s : Snapshot) (batch : Batch) : Except OutboxError Snapshot := do
  ensure (batch.Stageable digestHex) OutboxError.invalidBatch
  match s.batches.find? (·.batchId = batch.batchId) with
  | some existing => do
    let staged ← existing.restage batch
    return { s with
      batches := modifyFirst (·.batchId = batch.batchId) (fun _ => staged) s.batches }
  | none => return { s with batches := s.batches ++ [batch] }

/-- An item as the app sends it. -/
structure IncomingItem where
  itemId : String
  partIndex : ℕ
  txidHex : String
  rawTransaction : Bytes
  anchorBoundaryHeight : ℕ
  scheduledHeight : ℕ
  scheduleStartHeight : ℕ
  expiryHeight : ℕ
  deriving DecidableEq

def IncomingItem.decode (item : IncomingItem) : Item where
  itemId := item.itemId
  partIndex := item.partIndex
  txidHex := item.txidHex.toLower
  rawTransaction := item.rawTransaction
  payloadDigestHex := digestHex item.rawTransaction
  anchorBoundaryHeight := item.anchorBoundaryHeight
  scheduledHeight := item.scheduledHeight
  scheduleStartHeight := item.scheduleStartHeight
  expiryHeight := item.expiryHeight

/-- A batch as the app sends it. -/
structure IncomingBatch where
  batchId : String
  network : String
  accountUuid : String
  runId : String
  lightwalletdUrl : String
  timingMeanBlocks : ℕ
  timingMaxBlocks : ℕ
  nextProofHeight : Option ℕ
  items : List IncomingItem
  deriving DecidableEq

def IncomingBatch.decode (batch : IncomingBatch) : Batch where
  batchId := batch.batchId
  network := batch.network
  accountUuid := batch.accountUuid
  runId := batch.runId
  lightwalletdUrl := batch.lightwalletdUrl
  timingMeanBlocks := batch.timingMeanBlocks
  timingMaxBlocks := batch.timingMaxBlocks
  nextProofHeight := batch.nextProofHeight
  items := batch.items.map (IncomingItem.decode digestHex)

def Snapshot.stageBatch (s : Snapshot) (batch : IncomingBatch) : Except OutboxError Snapshot :=
  s.stage digestHex (batch.decode digestHex)

end Stage

/-! ## Arming and recovering -/

/-- An attempt whose outcome is unknown: the item can be selected again, later. -/
def Item.retry (item : Item) (error : String) (date : Date) : Item :=
  { item with
    status := .armed
    attemptCount := item.attemptCount + 1
    nextAttemptAt := some (date + retryDelay (item.attemptCount + 1))
    lastError := some error
    attemptId := none
    attemptStartedAt := none }

def unknownOutcome : String := "The previous submission outcome is unknown."

namespace Snapshot

def armBatch (s : Snapshot) (batchId : String) (expectedDigests : List (String × String))
    (date : Date) : Except OutboxError Snapshot := do
  let batch ← orError (s.batches.find? (·.batchId = batchId)) OutboxError.batchNotFound
  ensure ((expectedDigests ≠ [] ∨ batch.nextProofHeight.isSome) ∧
      ∀ entry ∈ expectedDigests, batch.items.any fun item =>
        item.itemId = entry.1 ∧ item.payloadDigestHex = entry.2)
    OutboxError.invalidArmRequest
  let armed : Batch := { batch with
    armedAt := some (batch.armedAt.getD date)
    items := batch.items.map fun item =>
      if item.itemId ∈ expectedDigests.map Prod.fst ∧ item.status = .staged then
        { item with status := .armed }
      else item }
  return { s with batches := modifyFirst (·.batchId = batchId) (fun _ => armed) s.batches }

/-- Submitting items become retries and staged items are armed. -/
def recoverItem (date : Date) (item : Item) : Item :=
  match item.status with
  | .submitting => item.retry unknownOutcome date
  | .staged => { item with status := .armed }
  | _ => item

/-- `false` when there is no such batch. -/
def recoverBatch (s : Snapshot) (batchId network accountUuid runId : String)
    (expectedTxids : List String) (lightwalletdUrl : String) (date : Date) :
    Except OutboxError (Snapshot × Bool) := do
  ensure (expectedTxids ≠ [] ∧ lightwalletdUrl ≠ "") OutboxError.invalidArmRequest
  match s.batches.find? (·.batchId = batchId) with
  | none => return (s, false)
  | some batch => do
    ensure (batch.network = network ∧ batch.accountUuid = accountUuid ∧ batch.runId = runId ∧
        batch.items ≠ [] ∧
        ∀ item ∈ batch.items, item.txidHex ∈ expectedTxids.map String.toLower)
      OutboxError.conflictingBatch
    let items := batch.items.map (recoverItem date)
    let recovered : Batch := { batch with
      items
      lightwalletdUrl
      armedAt :=
        if items.any (·.status = .armed) then some (batch.armedAt.getD date)
        else batch.armedAt }
    return ({ s with
      batches := modifyFirst (·.batchId = batchId) (fun _ => recovered) s.batches }, true)

def recoverInterruptedSubmissions (s : Snapshot) (date : Date) : Snapshot :=
  { s with
    batches := s.batches.map fun batch => { batch with
      items := batch.items.map fun item =>
        if item.status = .submitting then item.retry unknownOutcome date else item } }

end Snapshot

/-! ## What a height does -/

/-- Two periods of 34 560 blocks from the start of the period of a height. -/
def canonicalExpiryHeight (height : ℕ) : Option ℕ :=
  checkedAdd (height - height % 34_560) (2 * 34_560)

/-- The armed items of a batch that satisfy a test end with an outcome, and the batch pauses. -/
def Batch.settle (batch : Batch) (test : Item → Bool) (status : ItemStatus) : Batch :=
  let pausing := batch.items.any test
  { batch with
    items := batch.items.map fun item => if test item then { item with status } else item
    armedAt := if pausing then none else batch.armedAt
    nextProofHeight := if pausing then none else batch.nextProofHeight }

/-- The receipts of the items of a batch that satisfy a test. -/
def Batch.settlements (batch : Batch) (test : Item → Bool) (outcome : ReceiptOutcome)
    (remoteHeight : ℕ) (responseMessage : Option String) (date : Date) : List Receipt :=
  (batch.items.filter test).map fun item =>
    makeReceipt batch item outcome remoteHeight none responseMessage [] date

namespace Snapshot

/-- An armed item of an endpoint is expired. -/
def isExpiring (remoteHeight : ℕ) (endpoint : String) (batch : Batch) (item : Item) : Bool :=
  batch.lightwalletdUrl = endpoint ∧ item.status = .armed ∧ item.expiryHeight ≤ remoteHeight

def expireItems (s : Snapshot) (remoteHeight : ℕ) (endpoint : String) (date : Date) : Snapshot :=
  { s with
    batches := s.batches.map fun batch =>
      batch.settle (isExpiring remoteHeight endpoint batch) .expiredAwaitingReconciliation
    receipts := s.receipts ++ s.batches.flatMap fun batch =>
      batch.settlements (isExpiring remoteHeight endpoint batch) .expired remoteHeight none date }

/-- An armed item of an endpoint is due and expires elsewhere than a transaction built now. -/
def isNoncanonical (remoteHeight canonicalExpiry : ℕ) (endpoint : String) (batch : Batch)
    (item : Item) : Bool :=
  batch.lightwalletdUrl = endpoint ∧ item.status = .armed ∧
    item.scheduledHeight ≤ remoteHeight ∧ item.expiryHeight ≠ canonicalExpiry

def markDueItemsNeedingResign (s : Snapshot) (remoteHeight : ℕ) (endpoint : String)
    (date : Date) : Snapshot :=
  match canonicalExpiryHeight remoteHeight with
  | none => s
  | some expiry =>
    { s with
      batches := s.batches.map fun batch =>
        batch.settle (isNoncanonical remoteHeight expiry endpoint batch)
          .needsResignAwaitingReconciliation
      receipts := s.receipts ++ s.batches.flatMap fun batch =>
        batch.settlements (isNoncanonical remoteHeight expiry endpoint batch) .needsResign
          remoteHeight (some "Broadcast height crossed a ZIP 318 expiry boundary.") date }

/-- An item can be submitted. -/
def isDue (remoteHeight : ℕ) (date : Date) (item : Item) : Bool :=
  item.status = .armed ∧ item.scheduledHeight ≤ remoteHeight ∧ remoteHeight < item.expiryHeight ∧
    item.nextAttemptAt.all (· ≤ date)

/-- The scope after the last one, in a circle. -/
def nextScope (scopes : List String) (last : Option String) : Option String :=
  match last.bind scopes.idxOf? with
  | some index => scopes[(index + 1) % scopes.length]?
  | none => scopes.head?

/-- Scopes take turns, and within a scope the earliest item goes first. -/
def selectDue (s : Snapshot) (remoteHeight : ℕ) (endpoint : Option String) (date : Date) :
    Snapshot × Option Selection :=
  let candidates := s.batches.filter fun batch =>
    endpoint.all (batch.lightwalletdUrl = ·) ∧ batch.armedAt.isSome ∧
      batch.items.any (isDue remoteHeight date)
  let orderedScopes := (candidates.map Batch.scopeKey).dedup.mergeSort
  let selection : Option Selection := do
    let selectedScope ← nextScope orderedScopes s.lastAttemptedScopeKey
    let batch ← candidates.find? (·.scopeKey = selectedScope)
    let item ← ((batch.items.filter (isDue remoteHeight date)).mergeSort fun a b =>
      a.scheduledHeight < b.scheduledHeight ∨
        (a.scheduledHeight = b.scheduledHeight ∧ a.txidHex ≤ b.txidHex)).head?
    return {
      batchId := batch.batchId, accountUuid := batch.accountUuid, scopeKey := batch.scopeKey
      lightwalletdUrl := batch.lightwalletdUrl, item }
  ({ s with
    lastAttemptedScopeKey :=
      (selection.map Selection.scopeKey).or s.lastAttemptedScopeKey }, selection)

/-! ## Attempts -/

/-- A batch has an item. -/
def hasItem (itemId : String) (batch : Batch) : Bool := batch.items.any (·.itemId = itemId)

/-- The batch of an item and the item. -/
def itemLocation (s : Snapshot) (itemId : String) : Except OutboxError (Batch × Item) := do
  let batch ← orError (s.batches.find? (hasItem itemId)) OutboxError.itemNotFound
  let item ← orError (batch.items.find? (·.itemId = itemId)) OutboxError.itemNotFound
  return (batch, item)

/-- Put a batch in the place of the batch of an item. -/
def replaceBatch (s : Snapshot) (itemId : String) (batch : Batch) : Snapshot :=
  { s with batches := modifyFirst (hasItem itemId) (fun _ => batch) s.batches }

end Snapshot

/-- Put an item in its place. -/
def Batch.replaceItem (batch : Batch) (itemId : String) (item : Item) : Batch :=
  { batch with items := modifyFirst (·.itemId = itemId) (fun _ => item) batch.items }

namespace Snapshot

def beginSubmission (s : Snapshot) (itemId attemptId : String) (date : Date) :
    Except OutboxError Snapshot := do
  let (batch, item) ← s.itemLocation itemId
  ensure (item.status = .armed) OutboxError.invalidTransition
  return s.replaceBatch itemId (batch.replaceItem itemId { item with
    status := .submitting, attemptId := some attemptId, attemptStartedAt := some date })

/-- Every overdue item would still get a height of its own below its expiry. -/
def validateReschedulingAfterAcceptance (s : Snapshot) (itemId : String) (remoteHeight : ℕ) :
    Except OutboxError Unit := do
  let (batch, _) ← s.itemLocation itemId
  let expiryHeights := ((batch.items.filter fun item =>
    item.itemId ≠ itemId ∧ item.status = .armed ∧ item.scheduledHeight ≤ remoteHeight).map
      Item.expiryHeight).mergeSort
  let _ ← expiryHeights.foldlM (fun nextHeight expiryHeight => do
    let candidate ← orError (checkedAdd nextHeight 1) OutboxError.invalidSchedule
    ensure (candidate < expiryHeight) OutboxError.invalidSchedule
    return candidate) remoteHeight
  return ()

def recordUncertain (s : Snapshot) (itemId error : String) (date : Date) :
    Except OutboxError Snapshot := do
  let (batch, item) ← s.itemLocation itemId
  ensure (item.status = .submitting) OutboxError.invalidTransition
  return s.replaceBatch itemId (batch.replaceItem itemId (item.retry error date))

/-- Nothing was sent: the item is as before its selection. -/
def recordCancelledBeforeSubmission (s : Snapshot) (itemId error : String) :
    Except OutboxError Snapshot := do
  let (batch, item) ← s.itemLocation itemId
  ensure (item.status = .submitting) OutboxError.invalidTransition
  return s.replaceBatch itemId (batch.replaceItem itemId { item with
    status := .armed, nextAttemptAt := none, lastError := some error, attemptId := none
    attemptStartedAt := none })

end Snapshot

/-- The random choices of a rescheduling: an order of the overdue items and, for each of them, a
delay for a mean and a maximum. -/
structure Random where
  shuffle : List ℕ → List ℕ
  shuffle_perm : ∀ l, (shuffle l).Perm l
  delay : ℕ → ℕ → ℕ → ℕ

/-- At least one block and at most the maximum. -/
def Random.sampleDelay (random : Random) (draw meanBlocks maxBlocks : ℕ) : ℕ :=
  min (max 1 (random.delay draw meanBlocks maxBlocks)) maxBlocks

/-- `UInt64` addition that stops at the greatest value. -/
def saturatingAdd (a b : ℕ) : ℕ := min (a + b) (u64Size - 1)

namespace Batch

/-- The new schedules of the overdue items, in order. -/
def rescheduleFrom (random : Random) (remoteHeight draw elapsed : ℕ) (batch : Batch) :
    List ℕ → Except OutboxError (Batch × List ScheduleUpdate)
  | [] => .ok (batch, [])
  | itemIndex :: rest => do
    let item ← orError batch.items[itemIndex]? OutboxError.itemNotFound
    ensure (rest.length + 1 < item.expiryHeight) OutboxError.invalidSchedule
    let latestHeight := item.expiryHeight - rest.length - 1
    let currentHeight := saturatingAdd remoteHeight elapsed
    ensure (currentHeight < latestHeight) OutboxError.invalidSchedule
    let boundedMax := min batch.timingMaxBlocks (latestHeight - currentHeight)
    let elapsed := saturatingAdd elapsed
      (random.sampleDelay draw batch.timingMeanBlocks boundedMax)
    let scheduledHeight := saturatingAdd remoteHeight elapsed
    let rescheduled : Batch := { batch with
      items := batch.items.modify itemIndex fun item => { item with
        scheduledHeight, scheduleStartHeight := remoteHeight, attemptId := none
        attemptStartedAt := none } }
    let (final, updates) ← rescheduleFrom random remoteHeight (draw + 1) elapsed rescheduled rest
    return (final, ⟨item.itemId, scheduledHeight, remoteHeight⟩ :: updates)

/-- The other armed items of a batch that are overdue get new heights, the first to expire
first. -/
def rescheduleOverdueItems (batch : Batch) (itemId : String) (remoteHeight : ℕ)
    (random : Random) : Except OutboxError (Batch × List ScheduleUpdate) := do
  ensure (0 < batch.timingMeanBlocks ∧ 0 < batch.timingMaxBlocks ∧
      batch.timingMeanBlocks ≤ batch.timingMaxBlocks)
    OutboxError.invalidSchedule
  let overdueIndexes := (List.range batch.items.length).filter fun index =>
    batch.items[index]?.any fun item =>
      item.itemId ≠ itemId ∧ item.status = .armed ∧ item.scheduledHeight ≤ remoteHeight
  let expiry := fun index => (batch.items[index]?.map Item.expiryHeight).getD 0
  let order := (random.shuffle overdueIndexes).mergeSort fun i j => expiry i ≤ expiry j
  batch.rescheduleFrom random remoteHeight 0 0 order

end Batch

namespace Snapshot

def recordAccepted (s : Snapshot) (itemId : String) (equivalent : Bool) (remoteHeight : ℕ)
    (responseCode : ℤ) (responseMessage : String) (date : Date) (random : Random) :
    Except OutboxError Snapshot := do
  let (batch, item) ← s.itemLocation itemId
  ensure (item.status = .submitting) OutboxError.invalidTransition
  let accepted := batch.replaceItem itemId { item with
    status := .acceptedAwaitingReconciliation, attemptId := none, attemptStartedAt := none
    nextAttemptAt := none }
  let (final, updates) ← accepted.rescheduleOverdueItems itemId remoteHeight random
  let outcome := if equivalent then ReceiptOutcome.acceptedEquivalent else .accepted
  let replaced := s.replaceBatch itemId final
  return { replaced with
    receipts := s.receipts ++ [makeReceipt final item outcome remoteHeight (some responseCode)
      (some responseMessage) updates date] }

def recordRejected (s : Snapshot) (itemId : String) (remoteHeight : ℕ) (responseCode : ℤ)
    (responseMessage : String) (date : Date) : Except OutboxError Snapshot := do
  let (batch, item) ← s.itemLocation itemId
  ensure (item.status = .submitting) OutboxError.invalidTransition
  let rejected := batch.replaceItem itemId { item with
    status := .rejectedAwaitingReconciliation, attemptId := none, attemptStartedAt := none
    nextAttemptAt := none }
  let replaced := s.replaceBatch itemId
    { rejected with armedAt := none, nextProofHeight := none }
  return { replaced with
    receipts := s.receipts ++ [makeReceipt batch item .rejected remoteHeight (some responseCode)
      (some responseMessage) [] date] }

/-- A batch without proof height whose items are all accepted owes one notification. -/
def markBroadcastCompleteIfNeeded (s : Snapshot) (batchId : String) (date : Date) : Snapshot :=
  { s with
    batches := modifyFirst (·.batchId = batchId) (fun batch =>
      if batch.nextProofHeight = none ∧ batch.broadcastCompleteNotifiedAt = none ∧
          batchId ∉ s.announcedBroadcastCompleteBatchIds ∧ batch.items ≠ [] ∧
          ∀ item ∈ batch.items, item.status = .acceptedAwaitingReconciliation then
        { batch with
          broadcastCompleteNotificationPendingAt :=
            some (batch.broadcastCompleteNotificationPendingAt.getD date) }
      else batch) s.batches }

/-! ## Removals -/

def acknowledgeBroadcastCompleteNotification (s : Snapshot) (batchId : String) (date : Date) :
    Except OutboxError Snapshot := do
  let batch ← orError (s.batches.find? (·.batchId = batchId)) OutboxError.batchNotFound
  ensure batch.broadcastCompleteNotificationPendingAt.isSome OutboxError.invalidTransition
  let notified : Batch := { batch with
    broadcastCompleteNotificationPendingAt := none
    broadcastCompleteNotifiedAt := some date }
  let announced := s.announcedBroadcastCompleteBatchIds
  return { s with
    batches :=
      if batch.items = [] ∧ batch.nextProofHeight = none then
        s.batches.eraseP (·.batchId = batchId)
      else modifyFirst (·.batchId = batchId) (fun _ => notified) s.batches
    announcedBroadcastCompleteBatchIds :=
      if batchId ∈ announced then announced else announced ++ [batchId] }

/-- A receipt is among the acknowledged ones. -/
def isAcknowledged (receiptIds : List String) (receipt : Receipt) : Bool :=
  receipt.receiptId ∈ receiptIds

/-- A terminal receipt of a batch is acknowledged and no receipt of it stays. -/
def isRetired (receipts : List Receipt) (receiptIds : List String) (batchId : String) : Bool :=
  (receipts.any fun receipt => receipt.batchId = batchId ∧ isAcknowledged receiptIds receipt ∧
    receipt.outcome.isTerminal) ∧
  ∀ receipt ∈ receipts, receipt.batchId = batchId → isAcknowledged receiptIds receipt

/-- The receipt of an item is acknowledged. -/
def isReconciled (receipts : List Receipt) (receiptIds : List String) (itemId : String) : Bool :=
  receipts.any fun receipt => receipt.itemId = itemId ∧ isAcknowledged receiptIds receipt

/-- A batch without its reconciled items. -/
def stripItems (receipts : List Receipt) (receiptIds : List String) (batch : Batch) : Batch :=
  { batch with
    items := batch.items.filter fun item => ¬ isReconciled receipts receiptIds item.itemId }

/-- Nothing is left to submit, to prove or to announce. -/
def isSpent (batch : Batch) : Bool :=
  batch.items = [] ∧ batch.nextProofHeight = none ∧
    batch.broadcastCompleteNotificationPendingAt = none

def acknowledgeReceipts (s : Snapshot) (receiptIds : List String) : Snapshot :=
  let kept := s.batches.filter fun batch => ¬ isRetired s.receipts receiptIds batch.batchId
  let stripped := kept.map (stripItems s.receipts receiptIds)
  { s with
    receipts := s.receipts.filter fun receipt => ¬ isAcknowledged receiptIds receipt
    batches := stripped.filter fun batch => ¬ isSpent batch }

/-- `false` when there is no such batch; a batch with delivery state stays. -/
def discardBatch (s : Snapshot) (batchId : String) : Except OutboxError (Snapshot × Bool) :=
  match s.batches.find? (·.batchId = batchId) with
  | none => return (s, false)
  | some batch => do
    ensure (¬ (batch.items.any fun item => item.status = .submitting ∨ 0 < item.attemptCount) ∧
        ¬ s.receipts.any (·.batchId = batchId))
      OutboxError.conflictingBatch
    return ({ s with batches := s.batches.eraseP (·.batchId = batchId) }, true)

/-- The transactions of a run that may have been submitted. -/
def listAttemptedTxids (s : Snapshot) (network accountUuid runId : String) : List String :=
  let matching := s.batches.filter fun batch =>
    batch.network = network ∧ batch.accountUuid = accountUuid ∧ batch.runId = runId
  let attempted := (matching.flatMap Batch.items).filter fun item =>
    0 < item.attemptCount ∨ item.status = .submitting ∨
      item.status = .acceptedAwaitingReconciliation ∨
      item.status = .rejectedAwaitingReconciliation
  attempted.map Item.txidHex

end Snapshot

end VizorWallet.Outbox
