import VizorWallet.Migration.Store.Broadcasts

/-!
# Receipts of the native outbox

The wallet's side of a receipt: what an outcome that the native runner recorded does to the run.

## Main definitions

* `Receipt` — a receipt.
* `reconcileOrchardMigrationOutboxReceipt` — applying a receipt to the run that it names.
-/

namespace VizorWallet.Migration.Store

open Reorg (Txid)

inductive ReceiptOutcome where
  | accepted
  | acceptedEquivalent
  | rejected
  | expired
  | needsResign
  | unsupported (outcome : String)
  deriving DecidableEq

def PendingStatus.name : PendingStatus → String
  | .scheduled => "scheduled"
  | .broadcasted => "broadcasted"
  | .confirmed => "confirmed"
  | .needsResign => "needs_resign"

structure Receipt where
  txid : Txid
  outcome : ReceiptOutcome
  remoteHeight : ℕ
  scheduleUpdates : List MigrationOutboxScheduleUpdate
  acceptedRawTransaction : Option (List UInt8)

/-- The wallet database outside the migration tables: reading the id of a transaction and storing
its bytes. -/
structure TransactionStore where
  readTxid : List UInt8 → Except String Txid
  decryptAndStore : List UInt8 → Except String Unit

/-- `retire_run_for_rebuild` -/
def retireRunForRebuild (run : Run) : Run :=
  { run with
    phase := .failedTerminal
    preparedNotes := run.preparedNotes.map fun note => { note with lockState := .unlocked } }

def reconcileAccepted (transactions : TransactionStore) (receipt : Receipt) (run : Run) :
    Except String Run := do
  ensure (run.phase ≠ .failedTerminal ∧ run.phase ≠ .abandoned)
    "Migration outbox receipt cannot accept a retired migration run"
  let rawTx ← orError receipt.acceptedRawTransaction
    "Accepted migration outbox receipt is missing its raw transaction"
  let actualTxid ← transactions.readTxid rawTx
  ensure (actualTxid = receipt.txid)
    s!"Accepted migration outbox transaction ID mismatch: expected {receipt.txid}, got {actualTxid}"
  transactions.decryptAndStore rawTx
  applyAcceptedMigrationOutboxReceipt receipt.txid receipt.remoteHeight receipt.scheduleUpdates run

def reconcileRejected (receipt : Receipt) (run : Run) : Except String Run := do
  ensure receipt.scheduleUpdates.isEmpty
    "Rejected migration outbox receipt cannot update schedules"
  return if run.phase = .failedTerminal then run else retireRunForRebuild run

/-- The checks of an expiry receipt; `none` when the row is marked already. -/
def checkExpired (receipt : Receipt) (row : PendingTx) : Except String (Option Unit) := do
  ensure receipt.scheduleUpdates.isEmpty "Expired migration outbox receipt cannot update schedules"
  ensure (row.expiryHeight ≠ 0 ∧ row.expiryHeight ≤ receipt.remoteHeight)
    "Migration outbox receipt expired before the transaction expiry height"
  match row.status with
  | .needsResign => return none
  | .confirmed =>
    throw s!"Migration outbox receipt cannot expire a transaction in status {row.status.name}"
  | .scheduled | .broadcasted => return some ()

/-- The checks of a re-sign receipt; `none` when the row is marked already. -/
def checkNeedsResign (receipt : Receipt) (row : PendingTx) : Except String (Option Unit) := do
  ensure receipt.scheduleUpdates.isEmpty "Migration outbox re-sign receipt cannot update schedules"
  let canonicalExpiry ← zip318CanonicalMigrationExpiryHeight receipt.remoteHeight
  ensure (row.expiryHeight ≠ canonicalExpiry)
    "Migration outbox re-sign receipt still has canonical expiry at the broadcast height"
  match row.status with
  | .needsResign => return none
  | .confirmed | .broadcasted =>
    throw s!"Migration outbox receipt cannot re-sign a transaction in status {row.status.name}"
  | .scheduled => return some ()

/-- A marking pass that has to mark a row; the pass is committed also when it marks none. -/
def requireMarked (error : String) (marked : Run × ℕ) : Run × Except String Unit :=
  (marked.1, if marked.2 = 0 then .error error else .ok ())

/-- Commit the result of an operation that succeeds. -/
def commitResult (run : Run) (result : Except String Run) : Run × Except String Unit :=
  match result with
  | .ok run' => (run', .ok ())
  | .error error => (run, .error error)

/-- The tables after a receipt, and its result. -/
def reconcileOrchardMigrationOutboxReceipt (chain : ScannedChain) (transactions : TransactionStore)
    (receipt : Receipt) (run : Run) : Run × Except String Unit :=
  match run.pending.find? (·.txid = receipt.txid) with
  | none => (run, .error "Migration outbox receipt transaction was not found in this run")
  | some row =>
    match receipt.outcome with
    | .accepted | .acceptedEquivalent =>
      commitResult run (reconcileAccepted transactions receipt run)
    | .rejected => commitResult run (reconcileRejected receipt run)
    | .expired =>
      match checkExpired receipt row with
      | .error error => (run, .error error)
      | .ok none => (run, .ok ())
      | .ok (some ()) =>
        requireMarked "Migration outbox expiry receipt did not find an expired transaction"
          (markExpiredPendingPartsForResign chain receipt.remoteHeight run)
    | .needsResign =>
      match checkNeedsResign receipt row with
      | .error error => (run, .error error)
      | .ok none => (run, .ok ())
      | .ok (some ()) =>
        match markDuePartsWithNoncanonicalBroadcastHeightForResign chain receipt.remoteHeight
          run with
        | .error error => (run, .error error)
        | .ok marked =>
          requireMarked
            "Migration outbox re-sign receipt did not find a due noncanonical transaction" marked
    | .unsupported outcome =>
      (run, .error s!"Unsupported migration outbox receipt outcome: {outcome}")

end VizorWallet.Migration.Store
