import VizorWallet.Library.Bytes
import VizorWallet.Library.Outcome
import VizorWallet.Library.Saturate
import VizorWallet.Migration.Phase

/-!
# Reconciliation of denomination stages with the chain

The stages of a denomination split confirm, leave the chain in a reorg and come back. A pass
brings the stage table, the migration transactions that spend its outputs, the prepared notes and
the phase of the run in line with what the wallet has scanned, in three transactions.

## Main definitions

* `Run` — the tables of a run.
* `plan` — what a pass decides from the stages and the chain.
* `cleanUpChildren`, `commitStages`, `commitPhase` — the three transactions.
* `reconcile` — the pass.
-/

namespace VizorWallet.Migration.Reorg

/-- A transaction id, in lower case. -/
abbrev Txid := String

structure ChainIdentity where
  minedHeight : ℕ
  blockHash : Fixed 32
  deriving DecidableEq

/-- The inclusions that the wallet has scanned. -/
abbrev ChainSnapshot := Txid → Option ChainIdentity

/-- A stage status with the columns that its table constrains by the status. -/
inductive StageState where
  | awaitingInputs
  | pending (rawTx : String)
  | broadcasted (rawTx : String)
  | confirmed (rawTx : Option String) (identity : ChainIdentity)
  deriving DecidableEq

def StageState.rawTx : StageState → Option String
  | .awaitingInputs => none
  | .pending rawTx | .broadcasted rawTx => some rawTx
  | .confirmed rawTx _ => rawTx

/-- The stages that are still to be broadcast. -/
def StageState.remaining : StageState → Bool
  | .awaitingInputs | .pending _ => true
  | .broadcasted _ | .confirmed .. => false

structure Stage where
  stageIndex : ℕ
  basePczt : String
  compactSigs : String
  expectedTxid : Txid
  parentTxids : List Txid
  scheduledHeight : ℕ
  broadcastNotBeforeHeight : Option ℕ
  expiryHeight : ℕ
  broadcastAttempted : BroadcastAttempt
  state : StageState
  deriving DecidableEq

/-- A migration transaction that spends a prepared note. -/
structure PendingChild where
  txid : Txid
  selectedNoteTxid : Txid
  selectedNoteOutputIndex : ℕ
  deriving DecidableEq

inductive LockState where
  | locked
  | unlocked
  deriving DecidableEq

structure PreparedNote where
  txid : Txid
  outputIndex : ℕ
  nullifier : Option String
  lockState : LockState
  deriving DecidableEq

inductive PreparationTimingPolicy where
  | immediate
  | zip318Spaced
  deriving DecidableEq

structure Run where
  phase : Phase
  preparationTimingPolicy : PreparationTimingPolicy
  proofRetryHeight : Option ℕ
  stages : List Stage
  pendingChildren : List PendingChild
  preparedNotes : List PreparedNote
  deriving DecidableEq

/-! ## Decisions -/

/-- What becomes of one stage. -/
structure Disposition where
  affected : Bool := false
  invalid : Bool := false
  recovered : Bool := false
  identity : Option ChainIdentity := none
  deriving DecidableEq

def disposition : StageState → Option ChainIdentity → Disposition
  | .awaitingInputs, some identity => { identity := some identity }
  | .pending _, some identity => { identity := some identity, recovered := true }
  | .broadcasted _, some identity => { identity := some identity }
  | .confirmed .., none => { affected := true, invalid := true }
  | .confirmed _ stored, some identity =>
    if stored = identity then {} else { affected := true, identity := some identity }
  | _, none => {}

def Stage.disposition (chain : ChainSnapshot) (stage : Stage) : Disposition :=
  Reorg.disposition stage.state (chain stage.expectedTxid)

structure Plan where
  affected : Finset Txid
  invalidStages : Finset Txid
  identitiesToRecord : List (Txid × ChainIdentity)
  recoveredPendingTxids : List Txid

/-- The transaction ids of the stages that satisfy a condition. -/
def txidsOf (stages : List Stage) (condition : Stage → Bool) : Finset Txid :=
  ((stages.filter condition).map Stage.expectedTxid).toFinset

def plan (chain : ChainSnapshot) (stages : List Stage) : Plan :=
  -- A dependent transaction that is itself on the chain is retained.
  let closure := saturate Stage.expectedTxid Stage.parentTxids
    (fun stage => (chain stage.expectedTxid).isNone) stages (stages.length + 1)
    (txidsOf stages fun stage => (stage.disposition chain).affected,
      txidsOf stages fun stage => (stage.disposition chain).invalid)
  { affected := closure.1
    invalidStages := closure.2
    identitiesToRecord := stages.filterMap fun stage =>
      (stage.disposition chain).identity.map (stage.expectedTxid, ·)
    recoveredPendingTxids := (stages.filter fun stage =>
      (stage.disposition chain).recovered).map Stage.expectedTxid }

/-! ## Migration children -/

/-- The outputs of a denomination transaction that a child on the chain spends. -/
def includedOutputs (chain : ChainSnapshot) (children : List PendingChild) (txid : Txid) : List ℕ :=
  (children.filter fun child =>
    child.selectedNoteTxid = txid ∧ (chain child.txid).isSome).map (·.selectedNoteOutputIndex)

/-- The children that spend the denomination transaction and are not on the chain. -/
def clearedChildren (chain : ChainSnapshot) (children : List PendingChild) (txid : Txid) :
    List PendingChild :=
  children.filter fun child => child.selectedNoteTxid = txid ∧ (chain child.txid).isNone

/-- The prepared note of a reorged denomination transaction is spent by no child on the chain. -/
def PreparedNote.isReset (note : PreparedNote) (txid : Txid) (included : List ℕ) : Bool :=
  note.txid = txid ∧ note.outputIndex ∉ included

def PreparedNote.reset (note : PreparedNote) : PreparedNote :=
  { note with nullifier := none, lockState := .locked }

/-- The tables of a child reset, and whether anything was reset. -/
structure ChildReset where
  children : List PendingChild
  notes : List PreparedNote
  resetAny : Bool

/-- One round of `reset_migration_children_for_reorged_denominations`. -/
def resetDenomination (chain : ChainSnapshot) (tables : ChildReset) (txid : Txid) : ChildReset :=
  let included := includedOutputs chain tables.children txid
  let cleared := clearedChildren chain tables.children txid
  { children := tables.children.filter fun child => child.txid ∉ cleared.map (·.txid)
    notes := tables.notes.map fun note => if note.isReset txid included then note.reset else note
    resetAny := tables.resetAny || !cleared.isEmpty ||
      tables.notes.any fun note => note.isReset txid included }

def resetMigrationChildrenForReorgedDenominations (chain : ChainSnapshot)
    (denominationTxids : List Txid) (run : Run) : Run :=
  if run.phase.releasesWalletLocks then run
  else
    let tables := denominationTxids.foldl (resetDenomination chain)
      ⟨run.pendingChildren, run.preparedNotes, false⟩
    { run with
      pendingChildren := tables.children
      preparedNotes := tables.notes
      phase := if tables.resetAny then .waitingDenomConfirmations else run.phase
      proofRetryHeight := if tables.resetAny then none else run.proofRetryHeight }

/-! ## Stages -/

/-- Record an inclusion; a retained raw transaction remains available. -/
def Stage.confirm (identity : ChainIdentity) (stage : Stage) : Stage :=
  { stage with state := .confirmed stage.state.rawTx identity }

/-- Send a stage back; its base PCZT and signatures remain available. -/
def Stage.reset (stage : Stage) : Stage := { stage with state := .awaitingInputs }

/-- Update the one stage with a transaction id. -/
def updateStage (txid : Txid) (update : Stage → Stage) (error : String) (stages : List Stage) :
    Except String (List Stage) := do
  ensure ((stages.filter fun stage => stage.expectedTxid = txid).length = 1) error
  return stages.map fun stage => if stage.expectedTxid = txid then update stage else stage

def replaceDenominationStageConfirmationIdentity (stages : List Stage)
    (entry : Txid × ChainIdentity) : Except String (List Stage) :=
  updateStage entry.1 (Stage.confirm entry.2)
    s!"Migration denomination stage {entry.1} cannot record a mined inclusion" stages

def resetDenominationStageExact (stages : List Stage) (txid : Txid) :
    Except String (List Stage) :=
  updateStage txid Stage.reset s!"Migration denomination stage {txid} was not found" stages

/-- The order in which remaining stages are rescheduled. -/
def broadcastsBefore (a b : Stage) : Bool :=
  let heightOf (stage : Stage) := max stage.scheduledHeight (stage.broadcastNotBeforeHeight.getD 0)
  heightOf a < heightOf b || heightOf a = heightOf b && a.stageIndex ≤ b.stageIndex

/-- The loop of the rescheduling: each remaining stage follows the one before it after a delay. -/
def rescheduleRemaining (precedingHeight : ℕ) (delays : ℕ → ℕ) :
    List Stage → List Stage → Except String (List Stage)
  | [], stages => .ok stages
  | next :: remaining, stages => do
    let randomizedHeight := precedingHeight + delays 0
    ensure (randomizedHeight < 2 ^ 32) "Migration preparation catch-up height overflow"
    let effectiveHeight := max (max randomizedHeight next.scheduledHeight)
      (next.broadcastNotBeforeHeight.getD 0)
    rescheduleRemaining effectiveHeight (fun i => delays (i + 1)) remaining
      (stages.map fun stage =>
        if stage.stageIndex = next.stageIndex ∧ stage.state.remaining then
          { stage with broadcastNotBeforeHeight := some effectiveHeight }
        else stage)

/-- `delays` are the values that `preparation_delay_with_rng` draws, one after the other. -/
def rerandomizeRemainingPreparationBroadcastHeights (chainTipHeight : ℕ) (delays : ℕ → ℕ)
    (policy : PreparationTimingPolicy) (stages : List Stage) : Except String (List Stage) :=
  if policy = .immediate then .ok stages
  else
    let remaining := (stages.filter fun stage => stage.state.remaining).mergeSort broadcastsBefore
    rescheduleRemaining chainTipHeight delays remaining stages

/-! ## The pass -/

/-- The first transaction: the children of the affected denominations. -/
def cleanUpChildren (chain : ChainSnapshot) (p : Plan) (run : Run) : Run :=
  resetMigrationChildrenForReorgedDenominations chain
    ((run.stages.map Stage.expectedTxid).filter (· ∈ p.affected)) run

/-- A stage of the transaction id waits for its broadcast. -/
def isPending (stages : List Stage) (txid : Txid) : Bool :=
  stages.any fun stage => stage.expectedTxid = txid ∧ stage.state.remaining ∧
    stage.state ≠ .awaitingInputs

/-- The second transaction: the stages themselves. -/
def commitStages (chainTipHeight : ℕ) (delays : ℕ → ℕ) (p : Plan) (run : Run) :
    Except String Run := do
  if run.phase.releasesWalletLocks then
    return run
  let recoveredPendingStage := p.recoveredPendingTxids.any (isPending run.stages)
  let stages ← ((run.stages.map Stage.expectedTxid).filter (· ∈ p.invalidStages)).foldlM
    resetDenominationStageExact run.stages
  let stages ← (p.identitiesToRecord.filter (·.1 ∉ p.invalidStages)).foldlM
    replaceDenominationStageConfirmationIdentity stages
  let stages ← if recoveredPendingStage then
      rerandomizeRemainingPreparationBroadcastHeights chainTipHeight delays
        run.preparationTimingPolicy stages
    else .ok stages
  return { run with stages := stages }

/-- The third transaction: the phase. -/
def commitPhase (p : Plan) (run : Run) : Run :=
  if p.affected.Nonempty ∧ ¬ run.phase.releasesWalletLocks then
    { run with phase := .waitingDenomConfirmations }
  else run

/-- `reconcile_denomination_stage_chain_state_with_rng` -/
def reconcile (chain : ChainSnapshot) (chainTipHeight : ℕ) (delays : ℕ → ℕ) (run : Run) :
    Except String Run := do
  let p := plan chain run.stages
  let run ← commitStages chainTipHeight delays p (cleanUpChildren chain p run)
  return commitPhase p run

/-- The tables when a pass is interrupted after a number of its transactions. -/
def interrupted (chain : ChainSnapshot) (chainTipHeight : ℕ) (delays : ℕ → ℕ) (run : Run) :
    ℕ → Except String Run
  | 0 => .ok run
  | 1 => .ok (cleanUpChildren chain (plan chain run.stages) run)
  | 2 => commitStages chainTipHeight delays (plan chain run.stages)
      (cleanUpChildren chain (plan chain run.stages) run)
  | _ => reconcile chain chainTipHeight delays run

end VizorWallet.Migration.Reorg
