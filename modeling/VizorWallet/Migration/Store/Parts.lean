import VizorWallet.Migration.Store.Tables

/-!
# Inserting the parts of a run

Signed children become rows of the pending-transaction table, and re-signed parts replace rows.

## Main definitions

* `validateScheduleWithPolicy` — the checks of an approved schedule.
* `insertPendingTxs`, `promoteSignedChildPcztsToPendingTxs` — new rows.
* `replaceResignedPendingParts` — replaced rows.
-/

namespace VizorWallet.Migration.Store

open Reorg (Txid)

/-- `checked_add` on `u32` -/
def checkedAdd (a b : ℕ) (error : String) : Except String ℕ := do
  ensure (a + b < 2 ^ 32) error
  return a + b

theorem checkedAdd_eq_ok {a b c : ℕ} {error : String} :
    checkedAdd a b error = .ok c ↔ a + b < 2 ^ 32 ∧ a + b = c := by
  simp [checkedAdd, pure, Except.pure]

/-- `checked_sub` on `u32` -/
def checkedSub (a b : ℕ) (error : String) : Except String ℕ := do
  ensure (b ≤ a) error
  return a - b

/-- The encryption of the stored transactions. -/
structure PayloadKey where
  encrypt : List UInt8 → Except String String
  decrypt : String → Except String (List UInt8)

structure PendingMigrationTxInsert where
  partIndex : ℕ
  txid : Txid
  rawTx : List UInt8
  targetHeight : ℕ
  anchorBoundaryHeight : Option ℕ
  expiryHeight : ℕ
  scheduledHeight : ℕ
  value : ℕ
  fee : ℕ
  selectedNote : Outpoint

/-! ## The approved schedule -/

/-- The schedule entry of a part; a schedule without part indices is matched by the rank of the
part among the parts of equal value. -/
def scheduleEntryForPart (schedule : List MigrationScheduleEntry) (targetValues : List ℕ)
    (partIndex value : ℕ) : Option MigrationScheduleEntry :=
  if schedule.all (·.partIndex.isSome) then
    schedule.find? fun entry => entry.partIndex = some partIndex ∧ entry.value = value
  else if targetValues[partIndex]? ≠ some value then none
  else (schedule.filter (·.value = value))[(targetValues.take partIndex).count value]?

def scheduleBlockOffsetForPart (schedule : List MigrationScheduleEntry) (targetValues : List ℕ)
    (partIndex value : ℕ) : Option ℕ :=
  (scheduleEntryForPart schedule targetValues partIndex value).map (·.blockOffset)

def scheduleEntryForPending (schedule : List MigrationScheduleEntry) (targetValues : List ℕ)
    (pending : PendingMigrationTxInsert) : Option MigrationScheduleEntry :=
  scheduleEntryForPart schedule targetValues pending.partIndex pending.value

/-- The loop of `validate_schedule_part_indexes`. -/
def validatePartIndexes (targetValues : List ℕ) :
    List ℕ → List MigrationScheduleEntry → Except String Unit
  | _, [] => .ok ()
  | seen, entry :: rest => do
    let partIndex ← orError entry.partIndex
      "Approved migration schedule part indexes are incomplete"
    let value ← orError targetValues[partIndex]?
      "Approved migration schedule part index is outside the plan"
    ensure (partIndex ∉ seen) "Approved migration schedule part index is duplicated"
    ensure (value = entry.value) "Approved migration schedule part value changed"
    validatePartIndexes targetValues (partIndex :: seen) rest

def validateSchedulePartIndexes (schedule : List MigrationScheduleEntry) (targetValues : List ℕ) :
    Except String Unit :=
  if schedule.all (·.partIndex.isNone) then .ok ()
  else do
    ensure (schedule.all (·.partIndex.isSome))
      "Approved migration schedule part indexes are incomplete"
    validatePartIndexes targetValues [] schedule

/-- The loop over the gaps of a schedule. -/
def validateGaps (maxDelayBlocks : ℕ) : ℕ → List MigrationScheduleEntry → Except String Unit
  | _, [] => .ok ()
  | previousOffset, entry :: rest => do
    let gap ← checkedSub entry.blockOffset previousOffset
      "Approved migration schedule is not ordered"
    ensure (gap ≤ maxDelayBlocks) "Approved migration schedule delay is outside policy"
    validateGaps maxDelayBlocks entry.blockOffset rest

def validateScheduleWithPolicy (schedule : List MigrationScheduleEntry) (targetValues : List ℕ)
    (network : WalletNetwork) (timingPolicy : MigrationTimingPolicy) : Except String Unit := do
  ensure (schedule.length = targetValues.length) "Approved migration schedule count changed"
  ensure ((schedule.map (·.value)).mergeSort = targetValues.mergeSort)
    "Approved migration schedule values changed"
  validateSchedulePartIndexes schedule targetValues
  validateGaps (scheduleParametersWithPolicy network timingPolicy).2 0 schedule

/-! ## New rows -/

/-- Recover the height of a row whose scheduled height is the legacy marker, when the signed expiry
allows it. -/
def recoverLegacyHeight (entry : MigrationScheduleEntry) (pending : PendingMigrationTxInsert) :
    Except String PendingMigrationTxInsert :=
  if pending.scheduledHeight ≠ pending.targetHeight then .ok pending
  else do
    let targetExpiry ← zip318CanonicalMigrationExpiryHeight pending.targetHeight
    if pending.expiryHeight ≠ targetExpiry then
      return pending
    else do
      let legacyScheduledHeight ← checkedAdd (pending.targetHeight - 1) entry.blockOffset
        "Legacy migration scheduled height overflow"
      let legacyExpiry ← zip318CanonicalMigrationExpiryHeight legacyScheduledHeight
      if pending.expiryHeight = legacyExpiry then
        return { pending with scheduledHeight := legacyScheduledHeight }
      else
        return pending

/-- A signed child with the height, the expiry and the value of the part is retained. -/
def matchesRetainedReplacement (run : Run) (pending : PendingMigrationTxInsert) : Bool :=
  run.signedChildren.any fun child =>
    child.childIndex = pending.partIndex ∧ child.scheduledHeight = some pending.scheduledHeight ∧
      child.expiryHeight = pending.expiryHeight ∧ child.value = pending.value

/-- The origin of the schedule agrees with the persisted one, or with that of the batch. -/
def checkOrigin (run : Run) (incoming : Option ℕ) (pending : PendingMigrationTxInsert)
    (origin : ℕ) : Except String (Option ℕ) :=
  match run.signedScheduleOriginHeight, incoming with
  | some persisted, _ => do
    ensure (origin = persisted ∨ matchesRetainedReplacement run pending)
      "Signed migration child no longer matches the immutable signed schedule origin"
    return incoming
  | none, some shared => do
    ensure (origin = shared)
      "Initial signed migration children do not share one absolute schedule origin"
    return incoming
  | none, none => .ok (some origin)

/-- The loop that checks the parts of a batch and finds their origins. -/
def validateParts (run : Run) (schedule : List MigrationScheduleEntry) :
    List ℕ → Option ℕ → List PendingMigrationTxInsert →
      Except String (List (PendingMigrationTxInsert × ℕ) × Option ℕ)
  | _, incoming, [] => .ok ([], incoming)
  | seen, incoming, pending :: rest => do
    ensure (pending.partIndex ∉ seen) "Migration pending part index is duplicated"
    let entry ← orError (scheduleEntryForPending schedule run.targetValues pending)
      "Approved migration schedule no longer matches prepared values"
    let recovered ← recoverLegacyHeight entry pending
    let origin ← checkedSub recovered.scheduledHeight entry.blockOffset
      "Migration signed schedule starts below zero"
    let incoming ← checkOrigin run incoming recovered origin
    let canonicalExpiry ← zip318CanonicalMigrationExpiryHeight recovered.scheduledHeight
    ensure (recovered.expiryHeight = canonicalExpiry)
      s!"Migration transaction {recovered.txid} expiry is not canonical for scheduled height {
        recovered.scheduledHeight}"
    let (parts, incoming) ← validateParts run schedule (pending.partIndex :: seen) incoming rest
    return ((recovered, origin) :: parts, incoming)

/-- The row of a part. -/
def PendingMigrationTxInsert.row (pending : PendingMigrationTxInsert) (encryptedRawTx : String)
    (scheduleStartHeight : ℕ) : PendingTx where
  txid := pending.txid
  partIndex := some pending.partIndex
  encryptedRawTx := encryptedRawTx
  targetHeight := pending.targetHeight
  anchorBoundaryHeight := pending.anchorBoundaryHeight
  expiryHeight := pending.expiryHeight
  value := pending.value
  fee := pending.fee
  selectedNote := pending.selectedNote
  scheduleStartHeight := some scheduleStartHeight
  scheduledHeight := some pending.scheduledHeight
  rebuildBlockOffset := none
  broadcastAttempted := .notAttempted
  status := .scheduled

/-- `INSERT` a row, under the keys of the table. -/
def insertRow (error : String) (rows : List PendingTx) (row : PendingTx) :
    Except String (List PendingTx) := do
  ensure (row.txid ∉ rows.map PendingTx.txid) (error ++ ": UNIQUE constraint failed: txid_hex")
  ensure (row.partIndex.isNone ∨ row.partIndex ∉ rows.map PendingTx.partIndex)
    (error ++ ": UNIQUE constraint failed: run_id, part_index")
  return rows ++ [row]

/-- `drawn` is the schedule that is drawn when the run has none. -/
def insertPendingTxsWithTx (key : PayloadKey) (drawn : List MigrationScheduleEntry)
    (pendingTxs : List PendingMigrationTxInsert) (run : Run) : Except String Run := do
  let schedule := if run.schedule.isEmpty then drawn else run.schedule
  validateScheduleWithPolicy schedule run.targetValues run.network run.timingPolicy
  let (parts, incoming) ← validateParts run schedule [] none pendingTxs
  let pending ← parts.foldlM (fun rows (pending, origin) => do
    let encryptedRawTx ← key.encrypt pending.rawTx
    insertRow "Insert pending migration tx" rows (pending.row encryptedRawTx origin)) run.pending
  return { run with
    schedule := schedule
    signedScheduleOriginHeight := run.signedScheduleOriginHeight <|> incoming
    pending := pending
    phase := .broadcastScheduled }

def insertPendingTxs (key : PayloadKey) (drawn : List MigrationScheduleEntry)
    (pendingTxs : List PendingMigrationTxInsert) (run : Run) : Except String Run :=
  if pendingTxs.isEmpty then .ok run else insertPendingTxsWithTx key drawn pendingTxs run

/-! ## Promotion of signed children -/

/-- What becomes of the schedule of the signed children. -/
inductive Rebase where
  | freeze
  | skip
  | shift (updates : List (String × ℕ))

/-- The loop that computes the rebased height of every child. -/
def rebaseUpdates (run : Run) (origin newOrigin : ℕ) : List (SignedChild × ℕ) →
    Except String Rebase
  | [] => .ok (.shift [])
  | (child, scheduledHeight) :: rest =>
    match scheduleBlockOffsetForPart run.schedule run.targetValues child.childIndex child.value with
    | none => .ok .freeze
    | some blockOffset =>
      if scheduledHeight < blockOffset ∨ scheduledHeight - blockOffset ≠ origin then .ok .freeze
      else if 2 ^ 32 ≤ newOrigin + blockOffset then .ok .freeze
      else do
        let newExpiry ← zip318CanonicalMigrationExpiryHeight (newOrigin + blockOffset)
        if newExpiry ≠ child.expiryHeight then
          -- The signed expiry would belong to another bucket.
          return .skip
        else
          match ← rebaseUpdates run origin newOrigin rest with
          | .shift updates => return .shift ((child.messageId, newOrigin + blockOffset) :: updates)
          | other => return other

def SignedChild.rescheduled (updates : List (String × ℕ)) (child : SignedChild) : SignedChild :=
  match updates.lookup child.messageId with
  | some height => { child with scheduledHeight := some height }
  | none => child

/-- `ORDER BY child_index ASC, message_id ASC` -/
def orderedSignedChildren (run : Run) : List SignedChild :=
  run.signedChildren.insertionSort fun a b =>
    a.childIndex < b.childIndex ∨ a.childIndex = b.childIndex ∧ a.messageId ≤ b.messageId

/-- `rebase_initial_signed_schedule_for_anchor_readiness_with_tx`: whether heights were rewritten -/
def rebaseInitialSignedSchedule (currentScannedHeight : ℕ) (run : Run) :
    Except String (Run × Bool) :=
  match run.initialScheduleRebasedOriginHeight, run.proofRetryHeight,
    run.signedScheduleOriginHeight with
  | none, some proofRetryHeight, some origin =>
    if currentScannedHeight < proofRetryHeight ∨ 0 < countForRun run ∨ run.schedule.isEmpty then
      .ok (run, false)
    else do
      let children ← (orderedSignedChildren run).mapM fun child => do
        return (child, ← orError child.scheduledHeight "Read signed child for initial rebase")
      if children.isEmpty ∨ (run.signedChildren.map SignedChild.childIndex).toFinset ≠
          Finset.range (plannedPartCount run) then
        return (run, false)
      else
        let newOrigin := max origin currentScannedHeight
        if newOrigin = origin then
          return ({ run with initialScheduleRebasedOriginHeight := some origin }, false)
        else
          match ← rebaseUpdates run origin newOrigin children with
          | .freeze =>
            return ({ run with initialScheduleRebasedOriginHeight := some origin }, false)
          | .skip => return (run, false)
          | .shift updates => return ({ run with
              signedChildren := run.signedChildren.map (SignedChild.rescheduled updates)
              signedScheduleOriginHeight := some newOrigin
              initialScheduleRebasedOriginHeight := some newOrigin }, true)
  | _, _, _ => .ok (run, false)

def migrationPartAssignmentComplete (run : Run) : Prop :=
  0 < plannedPartCount run ∧
    countForRun run + unpromotedSignedChildPcztCount run = plannedPartCount run

instance (run : Run) : Decidable (migrationPartAssignmentComplete run) :=
  inferInstanceAs (Decidable (_ ∧ _))

/-- Read the height of the part again, which a rebase may have moved. -/
def PendingMigrationTxInsert.refresh (run : Run) (pending : PendingMigrationTxInsert) :
    Except String PendingMigrationTxInsert := do
  let child ← orError (run.signedChildren.find? (·.childIndex = pending.partIndex))
    "Read current signed migration child schedule"
  let scheduledHeight ← orError child.scheduledHeight "Read current signed migration child schedule"
  return { pending with scheduledHeight := scheduledHeight }

def promoteSignedChildPcztsToPendingTxs (key : PayloadKey) (drawn : List MigrationScheduleEntry)
    (currentScannedHeight remainingChildRetryHeight : ℕ)
    (pendingTxs : List PendingMigrationTxInsert) (run : Run) : Except String Run :=
  if pendingTxs.isEmpty then .ok run
  else do
    ensure (migrationPartAssignmentComplete run)
      "Migration signing batches are incomplete before proof promotion"
    let (run, _) ← rebaseInitialSignedSchedule currentScannedHeight run
    let pendingTxs ← pendingTxs.mapM (PendingMigrationTxInsert.refresh run)
    let run ← insertPendingTxsWithTx key drawn pendingTxs run
    return { run with
      proofRetryHeight :=
        if run.signedChildren.any fun child =>
            some child.childIndex ∉ run.pending.map PendingTx.partIndex then
          some remainingChildRetryHeight
        else none }

/-! ## Signed children -/

/-- The height of a signed child is part of what was signed. -/
structure SignedMigrationPcztInsert where
  messageId : String
  childIndex : ℕ
  targetHeight : ℕ
  expiryHeight : ℕ
  scheduledHeight : ℕ
  value : ℕ
  selectedNote : Outpoint

inductive SignedChildInsertMode where
  | initial
  | replacement
  deriving DecidableEq

def SignedMigrationPcztInsert.row (child : SignedMigrationPcztInsert) : SignedChild where
  messageId := child.messageId
  childIndex := child.childIndex
  targetHeight := child.targetHeight
  expiryHeight := child.expiryHeight
  scheduledHeight := some child.scheduledHeight
  value := child.value
  selectedNote := child.selectedNote

/-- The origin that the signed children of a batch share. -/
def sharedOrigin (run : Run) (mode : SignedChildInsertMode) (origin : Option ℕ)
    (child : SignedMigrationPcztInsert) : Except String (Option ℕ) :=
  if run.schedule.isEmpty then .ok origin
  else do
    let blockOffset ← orError
      (scheduleBlockOffsetForPart run.schedule run.targetValues child.childIndex child.value)
      "Approved migration schedule is missing a signed child"
    match mode with
    | .replacement => return origin
    | .initial => do
      let childScheduleOrigin ← checkedSub child.scheduledHeight blockOffset
        "Signed migration schedule starts below zero"
      ensure (origin.all (· = childScheduleOrigin))
        "Signed migration children do not share one absolute schedule origin"
      return some childScheduleOrigin

/-- A replacement belongs to the recovery generation of the run. -/
def checkRecovery (run : Run) (mode : SignedChildInsertMode) (child : SignedMigrationPcztInsert) :
    Except String Unit :=
  match mode with
  | .initial => .ok ()
  | .replacement => do
    let recoveryOrigin ← orError run.recoveryScheduleOriginHeight
      "Migration recovery schedule origin is missing"
    ensure (recoveryOrigin ≤ child.scheduledHeight) "Signed migration schedule starts below zero"

/-- One round over the signed children: the rows so far and the origin that they share. -/
def insertSignedChild (run : Run) (mode : SignedChildInsertMode)
    (state : List SignedChild × Option ℕ) (child : SignedMigrationPcztInsert) :
    Except String (List SignedChild × Option ℕ) := do
  let canonicalExpiry ← zip318CanonicalMigrationExpiryHeight child.scheduledHeight
  ensure (child.expiryHeight = canonicalExpiry)
    s!"Signed migration child {child.messageId} expiry {
      child.expiryHeight} is not canonical for scheduled height {child.scheduledHeight}"
  let origin ← sharedOrigin run mode state.2 child
  checkRecovery run mode child
  -- `INSERT OR REPLACE` under the message id.
  return (state.1.filter (·.messageId ≠ child.messageId) ++ [child.row], origin)

def insertSignedChildPczts (mode : SignedChildInsertMode)
    (signedChildren : List SignedMigrationPcztInsert) (run : Run) : Except String Run := do
  let origin := if mode = .initial then run.signedScheduleOriginHeight else none
  let (children, origin) ← signedChildren.foldlM (insertSignedChild run mode)
    (run.signedChildren, origin)
  return { run with
    signedChildren := children
    signedScheduleOriginHeight := if mode = .initial then
      run.signedScheduleOriginHeight <|> origin else run.signedScheduleOriginHeight }

/-! ## Replaced parts -/

structure PendingMigrationTxReplacement where
  oldTxid : Txid
  replacement : PendingMigrationTxInsert

/-- `swap_remove` -/
def swapRemove {α : Type*} (l : List α) (i : ℕ) (last : α) : List α := (l.set i last).dropLast

/-- The loop that assigns replacements to the entries of the schedule. -/
def scheduleReplacements : List MigrationScheduleEntry → List PendingMigrationTxReplacement →
    List PendingMigrationTxReplacement × List PendingMigrationTxReplacement
  | [], replacements => ([], replacements)
  | entry :: schedule, replacements =>
    let index := replacements.findIdx fun replacement =>
      entry.partIndex.all (replacement.replacement.partIndex = ·) ∧
        replacement.replacement.value = entry.value
    match replacements[index]?, replacements.getLast? with
    | some replacement, some last =>
      let (scheduled, rest) := scheduleReplacements schedule (swapRemove replacements index last)
      (replacement :: scheduled, rest)
    | _, _ => scheduleReplacements schedule replacements

/-- The start of the schedule of a replaced part: its recovery generation, or its construction
target. -/
def replacementStart (run : Run) (original : PendingTx) (pending : PendingMigrationTxInsert) :
    Except String ℕ :=
  match run.recoveryScheduleOriginHeight, original.rebuildBlockOffset with
  | some origin, some persistedOffset => do
    let persistedScheduledHeight ← checkedAdd origin persistedOffset
      "Persisted migration recovery schedule overflow"
    ensure (pending.scheduledHeight = persistedScheduledHeight)
      "Replacement migration schedule does not match its persisted recovery offset"
    return origin
  | none, none => .ok (pending.targetHeight - 1)
  | _, _ => .error "Migration recovery schedule metadata is incomplete"

/-- Replace one row that waits for re-signing. -/
def replacePart (key : PayloadKey) (run : Run) (rows : List PendingTx)
    (replacement : PendingMigrationTxReplacement) : Except String (List PendingTx) := do
  let pending := replacement.replacement
  let original ← orError
    (rows.find? fun row => row.txid = replacement.oldTxid ∧ row.status = .needsResign)
    "Expired migration part disappeared before replacement"
  ensure (original.value = pending.value) "Expired migration denomination changed during recovery"
  ensure (original.selectedNote = pending.selectedNote)
    "Expired migration funding note changed during recovery"
  let canonicalExpiry ← zip318CanonicalMigrationExpiryHeight pending.scheduledHeight
  ensure (pending.expiryHeight = canonicalExpiry)
    "Replacement migration expiry is not canonical for its scheduled height"
  let scheduleStartHeight ← replacementStart run original pending
  ensure (scheduleStartHeight ≤ pending.scheduledHeight)
    "Replacement migration schedule starts below zero"
  let encryptedRawTx ← key.encrypt pending.rawTx
  insertRow "Insert replacement migration part" (rows.filter (·.txid ≠ replacement.oldTxid))
    (pending.row encryptedRawTx scheduleStartHeight)

def replaceResignedPendingParts (key : PayloadKey)
    (replacements : List PendingMigrationTxReplacement)
    (signedChildren : List SignedMigrationPcztInsert) (run : Run) : Except String Run :=
  if replacements.isEmpty then .ok run
  else do
    let (scheduled, rest) := scheduleReplacements run.schedule replacements
    ensure rest.isEmpty "Replacement migration schedule does not match its denominations"
    let pending ← scheduled.foldlM (replacePart key run) run.pending
    let run ← insertSignedChildPczts .replacement signedChildren { run with pending := pending }
    return { run with phase := .broadcastScheduled }

end VizorWallet.Migration.Store
