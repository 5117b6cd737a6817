import VizorWallet.Ledger.Operations
import VizorWallet.Library.Transition

/-!
# Reservations of send proposals

A send proposal reserves its inputs: the wallet outputs are locked, a table remembers the locks for
the next process, and the process itself remembers who may unlock them. Each operation is given by
the states after each of its commits, so that the process may end after any of them.

## Main definitions

* `World` — the stores on disk and in the process.
* `proposeSend`, `beginPczt`, `finishPczt`, `finishStoredProposal`, `discardStoredProposal`,
  `retainStoredProposalLockUntilExpiry`, `markProposalBroadcastStarted`,
  `shutdownSigningReservations`, `recoverPreviousProcess`, `recoverBeforeBalance`
* `reservations` — the operations, each run to its end or to a crash.
-/

namespace VizorWallet.Send

open Ledger (Outbox OperationKind SignedRound BroadcastOutcome)

structure StoredProposal where
  proposalId : ℕ
  sendFlowId : String
  inputs : List OutputRef
  deriving DecidableEq

structure StoredProposalLock where
  proposalId : ℕ
  sendFlowId : String
  owner : LockOwner
  inputs : List OutputRef
  deriving DecidableEq

structure ProposalStore where
  proposals : List StoredProposal
  locks : List StoredProposalLock
  nextId : ℕ

def ProposalStore.findProposal (store : ProposalStore) (proposalId : ℕ) : Option StoredProposal :=
  store.proposals.find? (·.proposalId = proposalId)

def ProposalStore.findLock (store : ProposalStore) (proposalId : ℕ) : Option StoredProposalLock :=
  store.locks.find? (·.proposalId = proposalId)

def ProposalStore.forgetProposal (proposalId : ℕ) (store : ProposalStore) : ProposalStore :=
  { store with proposals := store.proposals.filter (·.proposalId ≠ proposalId) }

def ProposalStore.forgetLock (proposalId : ℕ) (store : ProposalStore) : ProposalStore :=
  { store with locks := store.locks.filter (·.proposalId ≠ proposalId) }

/-- The stores, the creations of PCZTs that wait for the chain tip, and what happened to owners:
those that were drawn, those whose PCZT was made and those that were finished without a release. -/
structure World where
  outputLocks : OutputLocks
  outbox : Outbox
  session : SessionId
  shuttingDown : Bool
  store : ProposalStore
  creating : List (StoredProposal × LockOwner)
  drawn : List LockOwner
  bound : List LockOwner
  kept : List LockOwner

abbrev World.rows (world : World) : List LockRow := world.outbox.rows

def World.withRows (world : World) (rows : List LockRow) : World :=
  { world with outbox := { world.outbox with rows := rows } }

def World.forgetProposal (world : World) (proposalId : ℕ) : World :=
  { world with store := world.store.forgetProposal proposalId }

def World.forgetLock (world : World) (proposalId : ℕ) : World :=
  { world with store := world.store.forgetLock proposalId }

/-- A process that starts on the same disk. -/
def World.restart (session : SessionId) (world : World) : World :=
  { world with
    session := session
    shuttingDown := false
    store := ⟨[], [], 1⟩
    creating := [] }

/-- The last state of an operation. -/
def World.last (world : World) (states : List World) : World := states.getLastD world

/-! ## Proposals -/

/-- `refused` tells that the wallet does not lock the inputs. -/
def proposeSend (sendFlowId : String) (owner : LockOwner) (inputs : List OutputRef)
    (expiryHeight : ℕ) (refused : Bool) (world : World) : List World :=
  if sendFlowId = "" ∨ world.shuttingDown then []
  else
    let persisted :=
      { world.withRows (persist world.session owner inputs expiryHeight world.rows) with
        drawn := owner :: world.drawn }
    if refused then [persisted, persisted.withRows (remove owner persisted.rows)]
    else
      let locked := { persisted with outputLocks := lockOutputs inputs owner world.outputLocks }
      let store := world.store
      [persisted, locked, { locked with
        store := {
          proposals := store.proposals ++ [⟨store.nextId, sendFlowId, inputs⟩]
          locks := store.locks ++ [⟨store.nextId, sendFlowId, owner, inputs⟩]
          nextId := store.nextId + 1 } }]

def unlockStoredProposalLocked (proposalId : ℕ) (sendFlowId : String) (allowDurable : Bool)
    (world : World) : List World :=
  match world.store.findLock proposalId with
  | none => []
  | some current =>
    if current.sendFlowId ≠ sendFlowId then []
    else if !allowDurable && isDurable current.owner world.rows then []
    else
      let releases := current.inputs.map fun output => (current.owner, output)
      let unlocked := { world with outputLocks := unlockAll world.outputLocks releases }
      let removed := unlocked.withRows (remove current.owner world.rows)
      (unlockEach world.outputLocks releases).map (fun outputLocks =>
        { world with outputLocks := outputLocks }) ++
      [removed, removed.forgetLock proposalId]

def finishStoredProposalInner (proposalId : ℕ) (sendFlowId : String)
    (releaseInputs allowDurable : Bool) (world : World) : List World :=
  match world.store.findLock proposalId with
  | none => []
  | some lock =>
    if lock.sendFlowId ≠ sendFlowId then []
    else if releaseInputs then
      unlockStoredProposalLocked proposalId sendFlowId allowDurable world
    else
      let forgotten := world.forgetLock proposalId
      [forgotten, { forgotten.withRows (remove lock.owner world.rows) with
        kept := lock.owner :: world.kept }]

def finishStoredProposal (proposalId : ℕ) (sendFlowId : String) (releaseInputs : Bool)
    (world : World) : List World :=
  finishStoredProposalInner proposalId sendFlowId releaseInputs true world

def discardStoredProposal (proposalId : ℕ) (sendFlowId : String) (world : World) : List World :=
  match world.store.findProposal proposalId with
  | some stored =>
    if stored.sendFlowId = sendFlowId then
      let discarded := world.forgetProposal proposalId
      discarded :: finishStoredProposalInner proposalId sendFlowId true false discarded
    else []
  | none => finishStoredProposalInner proposalId sendFlowId true false world

/-- The capability of a proposal, in an active session. -/
def storedProposalLock (proposalId : ℕ) (sendFlowId : String) (world : World) :
    Except String StoredProposalLock :=
  if world.shuttingDown then .error "Wallet is shutting down; signing request was cancelled"
  else
    match world.store.findLock proposalId with
    | none => .error "Proposal input lock not found"
    | some lock => if lock.sendFlowId = sendFlowId then .ok lock else .error "Send flow mismatch"

def retainStoredProposalLockUntilExpiry (proposalId : ℕ) (sendFlowId : String) (world : World) :
    List World :=
  match world.store.findLock proposalId with
  | none => []
  | some lock =>
    if lock.sendFlowId ≠ sendFlowId then []
    else
      match markRetainUntilExpiry lock.owner world.rows with
      | .error _ => []
      | .ok rows =>
        let marked := world.withRows rows
        if (world.store.findProposal proposalId).any (·.sendFlowId ≠ sendFlowId) then [marked]
        else [marked, (marked.forgetProposal proposalId).forgetLock proposalId]

def markProposalBroadcastStarted (proposalId : ℕ) (sendFlowId : String) (world : World) :
    List World :=
  match storedProposalLock proposalId sendFlowId world with
  | .error _ => []
  | .ok lock =>
    match markRetainUntilExpiry lock.owner world.rows with
    | .error _ => []
    | .ok rows => [world.withRows rows]

/-! ## PCZTs -/

/-- The start of `create_pczt_from_proposal`: the proposal is consumed, and the chain tip is read,
which fails unless `live`. -/
def beginPczt (proposalId : ℕ) (sendFlowId : String) (live : Bool) (world : World) : List World :=
  if world.shuttingDown then []
  else
    match world.store.findProposal proposalId with
    | none => []
    | some stored =>
      if stored.sendFlowId ≠ sendFlowId then []
      else
        let consumed := world.forgetProposal proposalId
        match storedProposalLock proposalId sendFlowId consumed with
        | .error _ => consumed :: finishStoredProposal proposalId sendFlowId true consumed
        | .ok lock =>
          if live then [{ consumed with creating := world.creating ++ [(stored, lock.owner)] }]
          else consumed :: finishStoredProposal proposalId sendFlowId true consumed

/-- The rest of `create_pczt_from_proposal`, after the chain tip was read. The wallet may refuse the
locks, and the PCZT may not be `created`. -/
def finishPczt (proposalId liveExpiryHeight : ℕ) (refused created : Bool) (world : World) :
    List World :=
  match world.creating.find? (·.1.proposalId = proposalId) with
  | none => []
  | some (stored, owner) =>
    let resumed := { world with
      creating := world.creating.filter (·.1.proposalId ≠ proposalId) }
    let fail (world : World) : List World :=
      finishStoredProposal proposalId stored.sendFlowId true world
    match storedProposalLock proposalId stored.sendFlowId resumed with
    | .error _ => resumed :: fail resumed
    | .ok current =>
      if current.owner ≠ owner ∨ refused then resumed :: fail resumed
      else
        let locked := { resumed with
          outputLocks := lockOutputs stored.inputs owner world.outputLocks }
        match updateExpiry owner liveExpiryHeight world.rows with
        | .error _ => locked :: fail locked
        | .ok rows =>
          let extended := locked.withRows rows
          if created then [locked, extended, { extended with bound := owner :: world.bound }]
          else locked :: extended :: fail extended

/-! ## Sessions -/

def cleanupOne (proposalId : ℕ) (world : World) : List World :=
  match world.store.findLock proposalId with
  | none => []
  | some lock => unlockStoredProposalLocked proposalId lock.sendFlowId false world

/-- The cleanup of the proposals that it reaches before its deadline. -/
def shutdownCleanup : List ℕ → World → List World
  | [], _ => []
  | proposalId :: rest, world =>
    let states := cleanupOne proposalId world
    states ++ shutdownCleanup rest (world.last states)

def shutdownSigningReservations (reached : List ℕ) (world : World) : List World :=
  let closed := { world with shuttingDown := true }
  closed :: shutdownCleanup reached closed

/-- The locks that a recovery releases, at a height that it may know. -/
def releasedAt (targetHeight : Option ℕ) (locks : List SendLock) : List SendLock :=
  locks.filter fun lock =>
    shouldReleaseAfterRestart lock.retainUntilExpiry targetHeight lock.expiryHeight

/-- `recover_previous_process`, which reads the target height. -/
def recoverPreviousProcess (targetHeight : Option ℕ) (world : World) : List World :=
  match readPreviousSessionLocks world.session world.rows with
  | .error _ => []
  | .ok locks =>
    let released := releasedAt targetHeight locks
    let releases := released.flatMap fun lock =>
      lock.outputs.map fun output => (lock.owner, output)
    (unlockEach world.outputLocks releases).map (fun outputLocks =>
        { world with outputLocks := outputLocks }) ++
      [{ world.withRows (world.rows.filter fun row => row.owner ∉ released.map SendLock.owner) with
        outputLocks := unlockAll world.outputLocks releases }]

/-- The locks that a recovery releases when it does not know the height. -/
def releasedLocks (locks : List SendLock) : List SendLock :=
  locks.filter fun lock => shouldReleaseAfterRestart lock.retainUntilExpiry none lock.expiryHeight

def recoverBeforeBalance (world : World) : List World :=
  match readPreviousSessionLocks world.session world.rows with
  | .error _ => []
  | .ok locks =>
    let released := releasedLocks locks
    let releases := released.flatMap fun lock =>
      lock.outputs.map fun output => (lock.owner, output)
    (unlockEach world.outputLocks releases).map (fun outputLocks =>
        { world with outputLocks := outputLocks }) ++
      [{ world.withRows (world.rows.filter fun row => row.owner ∉ released.map SendLock.owner) with
        outputLocks := unlockAll world.outputLocks releases }]

/-! ## Runs -/

inductive SendOperation where
  | proposeSend (sendFlowId : String) (owner : LockOwner) (inputs : List OutputRef)
    (expiryHeight : ℕ) (refused : Bool)
  | beginPczt (proposalId : ℕ) (sendFlowId : String) (live : Bool)
  | finishPczt (proposalId liveExpiryHeight : ℕ) (refused created : Bool)
  | checkpointBatch (validate : Except String Unit) (operationId accountUuid : String)
    (kind : OperationKind) (externalRef : Option String) (rounds : List SignedRound)
  | markBroadcastStarted (proposalId : ℕ) (sendFlowId : String)
  | discard (proposalId : ℕ) (sendFlowId : String)
  | finish (proposalId : ℕ) (sendFlowId : String) (releaseInputs : Bool)
  | retain (proposalId : ℕ) (sendFlowId : String)
  | shutdown (reached : List ℕ)
  | applyBroadcastOutcome (operationId : String) (kind : OperationKind) (outcome : BroadcastOutcome)
  | recordBroadcastFailure (operationId message : String)
  | recoverBeforeBalance

/-- A transaction on the outbox, which an error rolls back. -/
def World.commit (world : World) : Except String Outbox → List World
  | .ok outbox => [{ world with outbox := outbox }]
  | .error _ => []

/-- The states after each commit of an operation. -/
def SendOperation.states (world : World) : SendOperation → List World
  | .proposeSend sendFlowId owner inputs expiryHeight refused =>
    Send.proposeSend sendFlowId owner inputs expiryHeight refused world
  | .beginPczt proposalId sendFlowId live => Send.beginPczt proposalId sendFlowId live world
  | .finishPczt proposalId liveExpiryHeight refused created =>
    Send.finishPczt proposalId liveExpiryHeight refused created world
  | .checkpointBatch validate operationId accountUuid kind externalRef rounds =>
    world.commit (Ledger.checkpointBatch world.session world.shuttingDown validate operationId
      accountUuid kind externalRef rounds world.outbox)
  | .markBroadcastStarted proposalId sendFlowId =>
    markProposalBroadcastStarted proposalId sendFlowId world
  | .discard proposalId sendFlowId => discardStoredProposal proposalId sendFlowId world
  | .finish proposalId sendFlowId releaseInputs =>
    finishStoredProposal proposalId sendFlowId releaseInputs world
  | .retain proposalId sendFlowId =>
    retainStoredProposalLockUntilExpiry proposalId sendFlowId world
  | .shutdown reached => shutdownSigningReservations reached world
  | .applyBroadcastOutcome operationId kind outcome =>
    world.commit (Ledger.applyBroadcastOutcome operationId kind outcome world.outbox)
  | .recordBroadcastFailure operationId message =>
    world.commit (.ok (Ledger.recordBroadcastFailure operationId message world.outbox).1)
  | .recoverBeforeBalance => Send.recoverBeforeBalance world

/-- An operation ends, or the process does after some of its commits and another one starts. The
rest of the wallet changes locks too. -/
inductive SendEvent where
  | complete (operation : SendOperation)
  | crash (operation : SendOperation) (commits : ℕ) (session : SessionId)
  | others (outputLocks : OutputLocks)

def sendStep (world : World) : SendEvent → World
  | .complete operation => world.last (operation.states world)
  | .crash operation commits session =>
    (world.last ((operation.states world).take commits)).restart session
  | .others outputLocks => { world with outputLocks := outputLocks }

def reservations (initial : World) : Transition World SendEvent :=
  ⟨initial, fun world event => some (sendStep world event)⟩

/-- The random owner of a proposal is new, and a PCZT names an owner only when it was bound to
it. -/
def SendOperation.Genuine (world : World) : SendOperation → Prop
  | .proposeSend _ owner _ _ _ =>
    owner ∉ world.drawn ∧ ∀ output, world.outputLocks output ≠ some owner
  | .checkpointBatch _ _ _ _ _ rounds => ∀ owner ∈ Ledger.boundOwners rounds, owner ∈ world.bound
  | _ => True

/-- The rest of the wallet does not lock outputs for the owner of a proposal. -/
def SendEvent.Genuine (world : World) : SendEvent → Prop
  | .complete operation | .crash operation _ _ => operation.Genuine world
  | .others outputLocks => ∀ output owner, outputLocks output = some owner → owner ∈ world.drawn →
    world.outputLocks output = some owner

end VizorWallet.Send
