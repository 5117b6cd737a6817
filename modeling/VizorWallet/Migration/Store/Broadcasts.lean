import VizorWallet.Migration.Store.Confirmations
import VizorWallet.Migration.Store.Parts

/-!
# Broadcasting the parts of a run

Selecting due parts, marking parts that cannot be broadcast any more, rescheduling overdue parts
and applying what was accepted.

## Main definitions

* `markDuePartsWithNoncanonicalBroadcastHeightForResign`, `markExpiredPendingPartsForResign`
* `rescheduleOverduePendingTxsWithOptions`
* `markPendingBroadcasted`, `applyAcceptedMigrationOutboxReceipt`
* `duePendingTxs`, `exportScheduledMigrationOutbox`
-/

namespace VizorWallet.Migration.Store

open Reorg (Txid)

/-! ## Parts that need a new signature -/

/-- The row is due, but not with the expiry that belongs to the tip. -/
def PendingTx.noncanonicalAt (chainTipHeight canonicalExpiry : ℕ) (row : PendingTx) : Bool :=
  row.status = .scheduled ∧ row.dueAt chainTipHeight ∧ row.expiryHeight ≠ canonicalExpiry

/-- Mark rows for re-signing, and the run when there is one. -/
def markForResign (condition : PendingTx → Bool) (run : Run) : Run × ℕ :=
  let affected := run.pending.countP condition
  ({ run with
      pending := updateWhere condition ({ · with status := .needsResign }) run.pending
      phase := if 0 < affected then .readyToMigrate else run.phase }, affected)

def markDuePartsWithNoncanonicalBroadcastHeightForResign (chain : ScannedChain)
    (chainTipHeight : ℕ) (run : Run) : Except String (Run × ℕ) := do
  let canonicalExpiry ← zip318CanonicalMigrationExpiryHeight chainTipHeight
  return markForResign (PendingTx.noncanonicalAt chainTipHeight canonicalExpiry)
    (reconcileRunConfirmations chain run)

/-- `pending_row_is_expired_for_resign`: an accepted transaction whose bytes are not stored yet
stays. -/
def PendingTx.isExpiredForResign (chain : ScannedChain) (chainTipHeight : ℕ) (row : PendingTx) :
    Bool :=
  row.expiryHeight ≠ 0 && row.expiryHeight ≤ chainTipHeight &&
    match row.status with
    | .scheduled => true
    | .broadcasted => chain.localTransactionRaw row.txid
    | _ => false

def markExpiredPendingPartsForResign (chain : ScannedChain) (chainTipHeight : ℕ) (run : Run) :
    Run × ℕ :=
  markForResign (PendingTx.isExpiredForResign chain chainTipHeight)
    (reconcileRunConfirmations chain run)

/-! ## Overdue parts -/

/-- Draw the height of an overdue row again, or mark it when the height crosses into another
bucket. -/
def PendingTx.redraw (chainTipHeight minimumDelayBlocks : ℕ) (offsets : Txid → ℕ)
    (row : PendingTx) : Except String PendingTx := do
  let effectiveOffset := max (offsets row.txid) minimumDelayBlocks
  let scheduledHeight ← checkedAdd chainTipHeight effectiveOffset
    "Migration rescheduled height overflow"
  let canonicalExpiry ← zip318CanonicalMigrationExpiryHeight scheduledHeight
  if canonicalExpiry ≠ row.expiryHeight then
    return { row with status := .needsResign }
  else
    return { row with
      scheduledHeight := some scheduledHeight
      scheduleStartHeight := some chainTipHeight }

/-- The row is overdue and not excluded. -/
def PendingTx.overdueAt (chainTipHeight : ℕ) (excludedTxid : Option Txid) (row : PendingTx) :
    Bool :=
  row.status = .scheduled ∧ row.dueAt chainTipHeight ∧ some row.txid ≠ excludedTxid

/-- `offsets` are the offsets that the shuffled draw gives to the overdue rows. -/
def rescheduleOverduePendingTxsWithOptions (chainTipHeight minimumDelayBlocks : ℕ)
    (excludedTxid : Option Txid) (offsets : Txid → ℕ) (run : Run) : Except String Run := do
  let pending ← run.pending.mapM fun row =>
    if row.overdueAt chainTipHeight excludedTxid then
      row.redraw chainTipHeight minimumDelayBlocks offsets
    else .ok row
  let needsResign := pending.map PendingTx.status ≠ run.pending.map PendingTx.status
  return { run with
    pending := pending
    phase := if needsResign then .readyToMigrate else run.phase }

def rescheduleOverduePendingTxs (chainTipHeight : ℕ) (offsets : Txid → ℕ) (run : Run) :
    Except String Run :=
  rescheduleOverduePendingTxsWithOptions chainTipHeight 0 none offsets run

/-! ## Accepted parts -/

def updateRunAfterPendingBroadcast (run : Run) : Run :=
  let fullyMaterialized := 0 < plannedPartCount run ∧ countForRun run = plannedPartCount run ∧
    unpromotedSignedChildPcztCount run = 0
  { run with
    phase := if 0 < countPendingWithStatus run .needsResign then .readyToMigrate
      else if 0 < countPendingWithStatus run .scheduled ∨ ¬ fullyMaterialized then
        .broadcastScheduled
      else .waitingMigrationConfirmations }

def markPendingBroadcasted (txid : Txid) (run : Run) : Run :=
  updateRunAfterPendingBroadcast { run with
    pending := updateWhere (·.txid = txid) ({ · with status := .broadcasted }) run.pending }

structure MigrationOutboxScheduleUpdate where
  itemId : Txid
  scheduledHeight : ℕ
  scheduleStartHeight : ℕ
  deriving DecidableEq

/-- The loop that checks the schedule updates of a receipt. -/
def validateUpdates (acceptedTxid : Txid) (remoteHeight timingMaxBlocks : ℕ) :
    List Txid → ℕ → List MigrationOutboxScheduleUpdate → Except String Unit
  | _, _, [] => .ok ()
  | seen, previousScheduledHeight, update :: rest => do
    ensure (update.itemId ≠ acceptedTxid) "Accepted migration outbox item cannot reschedule itself"
    ensure (update.itemId ∉ seen) s!"Migration outbox schedule update {update.itemId} is duplicated"
    ensure (update.scheduleStartHeight = remoteHeight)
      s!"Migration outbox schedule update {update.itemId} does not start at the receipt height"
    let incrementalDelay ← checkedSub update.scheduledHeight previousScheduledHeight
      s!"Migration outbox schedule update {update.itemId} moves backward"
    ensure (incrementalDelay ≠ 0 ∧ incrementalDelay ≤ timingMaxBlocks)
      s!"Migration outbox schedule update {update.itemId} is outside the timing window"
    validateUpdates acceptedTxid remoteHeight timingMaxBlocks (update.itemId :: seen)
      update.scheduledHeight rest

/-- The other rows that are overdue at a height and not expired. -/
def overduePeers (run : Run) (acceptedTxid : Txid) (remoteHeight : ℕ) : List Txid :=
  (run.pending.filter fun row => row.status = .scheduled ∧ row.dueAt remoteHeight ∧
    remoteHeight < row.expiryHeight ∧ row.txid ≠ acceptedTxid).map PendingTx.txid

/-- Apply one schedule update; the flag tells that it crossed into another bucket. -/
def applyUpdate (state : List PendingTx × Bool) (update : MigrationOutboxScheduleUpdate) :
    Except String (List PendingTx × Bool) := do
  let row ← orError (state.1.find? (·.txid = update.itemId))
    s!"Migration outbox schedule item {update.itemId} was not found"
  let canonicalExpiry ← zip318CanonicalMigrationExpiryHeight update.scheduledHeight
  if row.status = .scheduled then
    if canonicalExpiry ≠ row.expiryHeight then
      return (updateWhere (·.txid = update.itemId) ({ · with status := .needsResign }) state.1,
        true)
    else
      return (updateWhere (·.txid = update.itemId) ({ · with
        scheduledHeight := some update.scheduledHeight
        scheduleStartHeight := some update.scheduleStartHeight }) state.1, state.2)
  else do
    ensure (row.scheduledHeight = some update.scheduledHeight ∧
        row.scheduleStartHeight = some update.scheduleStartHeight)
      s!"Migration outbox schedule item {update.itemId} is no longer scheduled"
    return state

/-- The rows are updated in the order of their item ids. -/
def applyAcceptedMigrationOutboxReceipt (txid : Txid) (remoteHeight : ℕ)
    (scheduleUpdates : List MigrationOutboxScheduleUpdate) (run : Run) : Except String Run := do
  let accepted ← orError (run.pending.find? (·.txid = txid))
    "Migration outbox receipt transaction was not found in this run"
  let timingMaxBlocks := (scheduleParametersWithPolicy run.network run.timingPolicy).2
  validateUpdates txid remoteHeight timingMaxBlocks [] remoteHeight scheduleUpdates
  ensure (accepted.status = .scheduled →
      (scheduleUpdates.map (·.itemId)).toFinset = (overduePeers run txid remoteHeight).toFinset)
    "Migration outbox receipt must reschedule exactly the remaining overdue items"
  let supplied := scheduleUpdates.mergeSort (·.itemId ≤ ·.itemId)
  let (pending, crossed) ← supplied.foldlM applyUpdate (run.pending, false)
  let run := { run with
    pending := pending
    phase := if crossed then .readyToMigrate else run.phase }
  if accepted.status = .scheduled ∨ accepted.status = .needsResign then
    return updateRunAfterPendingBroadcast { run with
      pending := updateWhere
        (fun row => row.txid = txid ∧ (row.status = .scheduled ∨ row.status = .needsResign))
        ({ · with status := .broadcasted }) run.pending }
  else
    return run

/-! ## Selection -/

/-- Why a scheduled part cannot be handed out. -/
inductive SelectionError where
  | notCanonical (txid : Txid) (scheduledHeight : ℕ)
  | other (error : String)

/-- The error of a check that does not concern the expiry bucket. -/
def otherError {α : Type} : Except String α → Except SelectionError α
  | .ok a => .ok a
  | .error e => .error (.other e)

/-- The expiry of the row belongs to its scheduled height. -/
def checkCanonical (row : PendingTx) (scheduledHeight : ℕ) : Except SelectionError Unit := do
  let canonicalExpiry ← otherError (zip318CanonicalMigrationExpiryHeight scheduledHeight)
  ensure (row.expiryHeight = canonicalExpiry) (.notCanonical row.txid scheduledHeight)

structure DuePendingMigrationTx where
  txid : Txid
  rawTx : List UInt8

/-- The order of broadcasts. -/
def broadcastsBefore (a b : PendingTx) : Bool :=
  a.scheduledHeight.getD 0 < b.scheduledHeight.getD 0 ∨
    a.scheduledHeight.getD 0 = b.scheduledHeight.getD 0 ∧ a.txid ≤ b.txid

/-- The loop over the due rows: the first one that is not mined is handed out. -/
def selectDue (chain : ScannedChain) (key : PayloadKey) :
    List PendingTx → Except SelectionError (List DuePendingMigrationTx)
  | [] => .ok []
  | row :: rest =>
    if (chain.identity row.txid).isSome then selectDue chain key rest
    else do
      checkCanonical row (row.scheduledHeight.getD 0)
      let rawTx ← otherError (key.decrypt row.encryptedRawTx)
      return [⟨row.txid, rawTx⟩]

/-- The reconciliation is committed also when the selection fails. -/
def duePendingTxs (chain : ScannedChain) (chainTipHeight : ℕ) (key : PayloadKey) (run : Run) :
    Run × Except SelectionError (List DuePendingMigrationTx) :=
  let run := reconcileRunConfirmations chain run
  let due := (run.pending.filter fun row =>
    row.status = .scheduled ∧ row.dueAt chainTipHeight).mergeSort broadcastsBefore
  (run, selectDue chain key due)

structure MigrationOutboxItem where
  itemId : Txid
  partIndex : ℕ
  rawTx : List UInt8
  anchorBoundaryHeight : ℕ
  scheduledHeight : ℕ
  scheduleStartHeight : ℕ
  expiryHeight : ℕ

/-- The item of a scheduled row. -/
def exportItem (key : PayloadKey) (row : PendingTx) :
    Except SelectionError MigrationOutboxItem := do
  let scheduledHeight ← orError row.scheduledHeight (.other "Read migration outbox export")
  let partIndex ← orError row.partIndex
    (.other s!"Migration outbox transaction {row.txid} is missing its part index")
  let anchorBoundaryHeight ← orError row.anchorBoundaryHeight
    (.other s!"Migration outbox transaction {row.txid} is missing its anchor boundary")
  let scheduleStartHeight ← orError row.scheduleStartHeight
    (.other s!"Migration outbox transaction {row.txid} is missing its schedule origin")
  ensure (scheduledHeight < row.expiryHeight)
    (.other s!"Migration outbox transaction {row.txid} is scheduled at or after expiry")
  checkCanonical row scheduledHeight
  let rawTx ← otherError (key.decrypt row.encryptedRawTx)
  return ⟨row.txid, partIndex, rawTx, anchorBoundaryHeight, scheduledHeight, scheduleStartHeight,
    row.expiryHeight⟩

/-- The order of exported items. -/
def exportsBefore (a b : PendingTx) : Bool :=
  a.scheduledHeight.getD 0 < b.scheduledHeight.getD 0 ∨
    a.scheduledHeight.getD 0 = b.scheduledHeight.getD 0 ∧
      (a.partIndex.getD 0 < b.partIndex.getD 0 ∨
        a.partIndex.getD 0 = b.partIndex.getD 0 ∧ a.txid ≤ b.txid)

/-- The items of an export, after the parts with a noncanonical broadcast height were marked. -/
def exportScheduledMigrationOutbox (key : PayloadKey) (run : Run) :
    Except SelectionError (List MigrationOutboxItem) :=
  ((run.pending.filter (·.status = .scheduled)).mergeSort exportsBefore).mapM (exportItem key)

end VizorWallet.Migration.Store
