import VizorWallet.Migration.Store.Receipts

/-!
# The migration tables of a wallet

Any number of runs, and the operations that work on one run, on all runs of a network, or on
whatever an older version of the schema has left.

## Main definitions

* `Database` — the runs.
* `ensureSchema` — opening the database, with its legacy backfills.
* `rescheduleWalletOverduePendingTxs` — the sweep over all runs of a network.
* `reconcileDenominationStageChainState` — the reorg pass on a run.
-/

namespace VizorWallet.Migration.Store

open Reorg (Txid ChainSnapshot)

/-- The runs, keyed by their ids. -/
abbrev Database := List Run

/-- An operation on the run with an id. -/
def Database.onRun (runId : String) (operation : Run → Run) (db : Database) : Database :=
  db.map fun run => if run.runId = runId then operation run else run

/-- An operation on one run after the other, which an error ends. -/
def sweep (operation : Run → Run × Except String Unit) : Database → Database × Except String Unit
  | [] => ([], .ok ())
  | run :: rest =>
    match operation run with
    | (run', .ok ()) => (run' :: (sweep operation rest).1, (sweep operation rest).2)
    | (run', .error error) => (run' :: rest, .error error)

/-! ## Legacy part indices -/

/-- The order in which rows without a part index are filled. -/
def backfillsBefore (a b : PendingTx) : Bool :=
  match a.scheduledHeight, b.scheduledHeight with
  | none, some _ => true
  | some _, none => false
  | none, none => a.txid ≤ b.txid
  | some a', some b' => a' < b' ∨ a' = b' ∧ a.txid ≤ b.txid

/-- The part of a legacy row: that of a signed child with its note, else a target of its value,
else any that is free. -/
def legacyPartIndex (run : Run) (rows : List PendingTx) (row : PendingTx) : ℕ :=
  let used := rows.filterMap PendingTx.partIndex
  let children := run.signedChildren.mergeSort (·.childIndex ≤ ·.childIndex)
  let ofChild := (children.find? fun child =>
    child.selectedNote = row.selectedNote ∧ child.childIndex ∉ used).map SignedChild.childIndex
  let ofTarget := (run.targetValues.zipIdx.find? fun target =>
    (target.1 = row.value + row.fee ∨ target.1 = row.value) ∧ target.2 ∉ used).map Prod.snd
  let free := (List.range (used.length + 1)).find? (· ∉ used)
  (ofChild <|> ofTarget <|> free).getD 0

def backfillPendingPartIndices (run : Run) : Run :=
  let missing := (run.pending.filter (·.partIndex.isNone)).mergeSort backfillsBefore
  { run with
    pending := missing.foldl (fun rows row =>
      updateWhere (fun other => other.txid = row.txid ∧ other.partIndex.isNone)
        ({ · with partIndex := some (legacyPartIndex run rows row) }) rows) run.pending }

/-! ## Legacy schedules -/

/-- The origin of the schedule that a construction target stands for. -/
def legacyOrigin (targetHeight : ℕ) : ℕ := targetHeight - 1

/-- The height that the approved schedule gives to a part from the legacy origin. -/
def recoveredHeight (run : Run) (partIndex value targetHeight : ℕ) : Option ℕ :=
  (scheduleBlockOffsetForPart run.schedule run.targetValues partIndex value).bind fun blockOffset =>
    if legacyOrigin targetHeight + blockOffset < 2 ^ 32 then
      some (legacyOrigin targetHeight + blockOffset)
    else none

/-- The legacy children that a backfill looks at. -/
def SignedChild.isLegacy (run : Run) (child : SignedChild) : Bool :=
  (child.scheduledHeight = none ∨ child.scheduledHeight = some 0 ∨
    child.scheduledHeight = some child.targetHeight) ∧
  ¬ (run.signedScheduleOriginHeight.isSome ∧ child.scheduledHeight.any (· ≠ 0))

/-- The state of the loop over the legacy children of a run. -/
structure SignedBackfill where
  children : List SignedChild
  recoveredOrigin : Option ℕ
  invalidChildren : List SignedChild

/-- One round of the loop over the legacy children. -/
def recoverChild (run : Run) (state : SignedBackfill) (child : SignedChild) :
    SignedBackfill × Except String Unit :=
  let invalid := { state with invalidChildren := state.invalidChildren ++ [child] }
  let origin := legacyOrigin child.targetHeight
  match recoveredHeight run child.childIndex child.value child.targetHeight with
  | none => (invalid, .ok ())
  | some scheduledHeight =>
    if state.recoveredOrigin.any (· ≠ origin) then (invalid, .ok ())
    else
      match zip318CanonicalMigrationExpiryHeight scheduledHeight with
      | .error error => (state, .error error)
      | .ok canonicalExpiry =>
        if canonicalExpiry ≠ child.expiryHeight then (invalid, .ok ())
        else
          ({ state with
            children := state.children.map fun other =>
              if other.messageId = child.messageId then
                { other with scheduledHeight := some scheduledHeight }
              else other
            recoveredOrigin := some origin }, .ok ())

def recoverChildren (run : Run) (state : SignedBackfill) :
    List SignedChild → SignedBackfill × Except String Unit
  | [] => (state, .ok ())
  | child :: rest =>
    match recoverChild run state child with
    | (state', .ok ()) => recoverChildren run state' rest
    | (state', .error error) => (state', .error error)

/-- The loop over the runs of `backfill_legacy_signed_schedule_metadata`. -/
def backfillLegacySignedScheduleMetadata (run : Run) : Run × Except String Unit :=
  if run.schedule.isEmpty then (run, .ok ())
  else
    let children := (run.signedChildren.filter (SignedChild.isLegacy run)).mergeSort fun a b =>
      a.childIndex < b.childIndex ∨ a.childIndex = b.childIndex ∧ a.messageId ≤ b.messageId
    match recoverChildren run ⟨run.signedChildren, run.signedScheduleOriginHeight, []⟩ children with
    | (state, .error error) => ({ run with signedChildren := state.children }, .error error)
    | (state, .ok ()) =>
      let run := { run with
        signedChildren := state.children
        signedScheduleOriginHeight := run.signedScheduleOriginHeight <|> state.recoveredOrigin }
      if state.invalidChildren.isEmpty then (run, .ok ())
      else
        -- A child whose part has a row is kept for its recovery.
        let discarded := state.invalidChildren.filter fun child =>
          some child.childIndex ∉ run.pending.map PendingTx.partIndex
        ({ run with
          signedChildren := run.signedChildren.filter fun child =>
            child.messageId ∉ discarded.map SignedChild.messageId
          phase := .readyToMigrate }, .ok ())

/-- The legacy rows that a backfill looks at. -/
def PendingTx.isLegacy (origin : Option ℕ) (row : PendingTx) : Bool :=
  row.scheduledHeight = none ∨ row.scheduledHeight = some 0 ∨
    row.scheduledHeight = some row.targetHeight ∧ origin = none ∧ row.status ≠ .needsResign

/-- A legacy row gets the height that its schedule gives it. -/
def acceptLegacyRow (scheduledHeight : ℕ) (row : PendingTx) (run : Run) : Run :=
  let origin := legacyOrigin row.targetHeight
  { run with
    pending := updateWhere (·.txid = row.txid) (fun other => { other with
      scheduledHeight := some scheduledHeight
      scheduleStartHeight := other.scheduleStartHeight <|> some origin }) run.pending
    signedScheduleOriginHeight := run.signedScheduleOriginHeight <|> some origin }

/-- A legacy row has to be signed again, and the run is made ready for it. -/
def refuseLegacyRow (row : PendingTx) (run : Run) : Run :=
  { run with
    pending := updateWhere (·.txid = row.txid) (fun other => { other with
      scheduledHeight := some other.targetHeight
      status := .needsResign }) run.pending
    phase := .readyToMigrate }

/-- One round of the loop over the legacy rows. -/
def backfillLegacyRow (run : Run) (row : PendingTx) : Run × Except String Unit :=
  if run.signedScheduleOriginHeight.any (· ≠ legacyOrigin row.targetHeight) then
    (refuseLegacyRow row run, .ok ())
  else
    match row.partIndex.bind fun partIndex =>
      recoveredHeight run partIndex row.value row.targetHeight with
    | none => (refuseLegacyRow row run, .ok ())
    | some scheduledHeight =>
      match zip318CanonicalMigrationExpiryHeight scheduledHeight with
      | .error error => (run, .error error)
      | .ok canonicalExpiry =>
        if canonicalExpiry = row.expiryHeight then
          (acceptLegacyRow scheduledHeight row run, .ok ())
        else (refuseLegacyRow row run, .ok ())

def backfillLegacyRows (run : Run) : List PendingTx → Run × Except String Unit
  | [] => (run, .ok ())
  | row :: rest =>
    match backfillLegacyRow run row with
    | (run', .ok ()) => backfillLegacyRows run' rest
    | (run', .error error) => (run', .error error)

/-- The rows of one run in the loop of `backfill_legacy_pending_schedule_metadata`. -/
def backfillLegacyPendingScheduleMetadata (run : Run) : Run × Except String Unit :=
  if run.schedule.isEmpty then (run, .ok ())
  else
    backfillLegacyRows run
      ((run.pending.filter (PendingTx.isLegacy run.signedScheduleOriginHeight)).mergeSort fun a b =>
        a.partIndex.getD 0 < b.partIndex.getD 0 ∨
          a.partIndex.getD 0 = b.partIndex.getD 0 ∧ a.txid ≤ b.txid)

/-- The start of a schedule that is missing. -/
def backfillScheduleStarts (run : Run) : Run :=
  { run with
    pending := updateWhere (·.scheduleStartHeight.isNone)
      (fun row => { row with scheduleStartHeight := some (row.targetHeight - 1) }) run.pending }

/-- Opening the database; an error leaves what was written before it. -/
def ensureSchema (db : Database) : Database × Except String Unit :=
  match sweep backfillLegacySignedScheduleMetadata (db.map backfillPendingPartIndices) with
  | (db, .error error) => (db, .error error)
  | (db, .ok ()) =>
    match sweep backfillLegacyPendingScheduleMetadata db with
    | (db, .error error) => (db, .error error)
    | (db, .ok ()) => (db.map backfillScheduleStarts, .ok ())

/-! ## Sweeps and passes -/

/-- Reschedule the overdue rows of a network; `excluded` is the run and the transaction that was
accepted. -/
def rescheduleWalletOverduePendingTxs (network : WalletNetwork) (chainTipHeight : ℕ)
    (excluded : Option (String × Txid)) (offsets : Txid → ℕ) (db : Database) :
    Database × Except String Unit :=
  sweep (fun run =>
    if run.network = network then
      -- A redraw of zero blocks would be due in the same pass.
      commitResult run (rescheduleOverduePendingTxsWithOptions chainTipHeight 1
        ((excluded.filter (·.1 = run.runId)).map Prod.snd) offsets run)
    else (run, .ok ())) db

/-- The row as a child of the denomination stages. -/
def PendingTx.child (row : PendingTx) : Reorg.PendingChild :=
  ⟨row.txid, row.selectedNote.1, row.selectedNote.2⟩

/-- The tables that the reorg pass works on. -/
def Run.denominations (run : Run) : Reorg.Run where
  phase := run.phase
  preparationTimingPolicy := run.preparationTimingPolicy
  proofRetryHeight := run.proofRetryHeight
  stages := run.stages
  pendingChildren := run.pending.map PendingTx.child
  preparedNotes := run.preparedNotes

/-- Write the tables of a reorg pass back. -/
def Run.withDenominations (run : Run) (denominations : Reorg.Run) : Run :=
  { run with
    phase := denominations.phase
    proofRetryHeight := denominations.proofRetryHeight
    stages := denominations.stages
    pending := run.pending.filter (·.child ∈ denominations.pendingChildren)
    preparedNotes := denominations.preparedNotes }

/-- The reorg pass; its children transaction is committed also when the pass fails. -/
def reconcileDenominationStageChainState (chain : ChainSnapshot) (chainTipHeight : ℕ)
    (delays : ℕ → ℕ) (run : Run) : Run × Except String Unit :=
  match Reorg.reconcile chain chainTipHeight delays run.denominations with
  | .ok reconciled => (run.withDenominations reconciled, .ok ())
  | .error error =>
    (run.withDenominations (Reorg.cleanUpChildren chain (Reorg.plan chain run.stages)
      run.denominations), .error error)

end VizorWallet.Migration.Store
