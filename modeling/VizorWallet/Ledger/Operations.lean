import VizorWallet.Send.Locks

/-!
# The outbox of signed Ledger operations

Signed operations are kept until their broadcast has a recorded result. The rows of the outbox and
the reservations of their inputs change in one transaction.

## Main definitions

* `Operation` — a row of the outbox.
* `Outbox` — the outbox with the table of send-proposal locks.
* `checkpointBatch`, `acknowledge`, `applyBroadcastOutcome`, `recordBroadcastFailure`
* `isTerminalBroadcastFailure` — the texts that end an operation.
-/

namespace VizorWallet.Ledger

open Send (LockOwner LockRow SessionId)

inductive OperationKind where
  | send
  | swapDeposit
  | payDeposit
  | giftCard
  | shield
  deriving DecidableEq

def OperationKind.requiresAck : OperationKind → Bool
  | .swapDeposit | .payDeposit | .giftCard => true
  | .send | .shield => false

inductive OperationState where
  | signedPendingBroadcast
  | resultPendingAck
  deriving DecidableEq

inductive OperationStatus where
  | retryableError
  | broadcasted
  | broadcastedStorageFailed
  | broadcastUnknown
  | partialBroadcast
  | expired
  deriving DecidableEq

/-- A round of a signed operation: the transaction that its PCZTs make, and the reservation that the
proof PCZT is bound to. -/
structure SignedRound where
  proofPczt : List UInt8
  signaturePczt : List UInt8
  owner : Option LockOwner
  txid : String
  expiryHeight : ℕ
  deriving DecidableEq

structure Operation where
  operationId : String
  accountUuid : String
  kind : OperationKind
  externalRef : Option String
  rounds : List SignedRound
  expiryHeight : Option ℕ
  state : OperationState
  txid : Option String
  status : Option OperationStatus
  message : Option String
  deriving DecidableEq

/-- The outbox of a network, and the table of send-proposal locks. -/
structure Outbox where
  operations : List Operation
  rows : List LockRow
  deriving DecidableEq

def Outbox.find (outbox : Outbox) (operationId : String) : Option Operation :=
  outbox.operations.find? (·.operationId = operationId)

/-! ## Checkpoints -/

/-- The characters that `trim` removes. -/
def isWhitespace (c : Char) : Bool :=
  let code := c.toNat
  9 ≤ code ∧ code ≤ 13 ∨ 0x2000 ≤ code ∧ code ≤ 0x200a ∨
    code ∈ [0x20, 0x85, 0xa0, 0x1680, 0x2028, 0x2029, 0x202f, 0x205f, 0x3000]

def isBlank (value : String) : Bool := value.toList.all isWhitespace

def validateIdentifier (label value : String) : Except String Unit :=
  ensure (¬ isBlank value) s!"Ledger {label} must not be empty"

def validateExternalRef (kind : OperationKind) (externalRef : Option String) : Except String Unit :=
  if kind.requiresAck then
    ensure (externalRef.any fun value => !isBlank value)
      "Ledger deposit and gift_card operations require an external reference"
  else
    ensure externalRef.isNone
      "Ledger send and shield operations must not have an external reference"

/-- The expiry that all rounds share; zero is none. -/
def validatedExpiryHeight (rounds : List SignedRound) : Except String (Option ℕ) :=
  match rounds with
  | [] => .error "Invalid Ledger signed PCZT round count"
  | first :: rest => do
    rest.zipIdx.forM fun round => ensure (round.1.expiryHeight = first.expiryHeight)
      (s!"Ledger PCZT batch expiry mismatch: round 1 height {first.expiryHeight}, " ++
        s!"round {round.2 + 2} height {round.1.expiryHeight}")
    return if first.expiryHeight = 0 then none else some first.expiryHeight

/-- The owners that the rounds are bound to, each once. -/
def boundOwners (rounds : List SignedRound) : List LockOwner :=
  (rounds.filterMap SignedRound.owner).eraseDups

/-- The data that a repeated checkpoint must have. -/
def Operation.sameCheckpoint (a b : Operation) : Bool :=
  a.accountUuid = b.accountUuid ∧ a.kind = b.kind ∧ a.externalRef = b.externalRef ∧
    a.rounds.map SignedRound.proofPczt = b.rounds.map SignedRound.proofPczt ∧
    a.rounds.map SignedRound.signaturePczt = b.rounds.map SignedRound.signaturePczt ∧
    a.expiryHeight = b.expiryHeight

/-- `checkpoint_batch`; `validate` is what the check of the signed PCZTs finds. -/
def checkpointBatch (session : SessionId) (shuttingDown : Bool) (validate : Except String Unit)
    (operationId accountUuid : String) (kind : OperationKind) (externalRef : Option String)
    (rounds : List SignedRound) (outbox : Outbox) : Except String Outbox := do
  validateIdentifier "operation ID" operationId
  validateIdentifier "account UUID" accountUuid
  validateExternalRef kind externalRef
  let expiryHeight ← validatedExpiryHeight rounds
  validate
  ensure (¬ shuttingDown) "Wallet is shutting down; signing request was cancelled"
  let operation : Operation := ⟨operationId, accountUuid, kind, externalRef, rounds, expiryHeight,
    .signedPendingBroadcast, none, none, none⟩
  match outbox.find operationId with
  | some existing =>
    ensure (existing.sameCheckpoint operation)
      s!"Ledger operation {operationId} is already checkpointed with different data"
    return outbox
  | none =>
    let rows ← (boundOwners rounds).foldlM (Send.checkpointOwner session operationId) outbox.rows
    return ⟨outbox.operations ++ [operation], rows⟩

def acknowledge (operationId : String) (outbox : Outbox) : Except String Outbox := do
  validateIdentifier "operation ID" operationId
  let awaits (operation : Operation) : Bool :=
    operation.operationId = operationId ∧ operation.state = .resultPendingAck
  ensure (outbox.operations.countP awaits = 1)
    s!"Ledger operation {operationId} has no broadcast result awaiting acknowledgment"
  return { outbox with operations := outbox.operations.filter fun operation => !awaits operation }

/-! ## Results -/

/-- The operation that a broadcast works on. -/
def loadForBroadcast (operationId : String) (outbox : Outbox) : Except String Operation :=
  orError (outbox.operations.find? fun operation =>
    operation.operationId = operationId ∧ operation.state = .signedPendingBroadcast)
    s!"Ledger operation {operationId} is not pending broadcast"

/-- The result of a broadcast. -/
structure BroadcastOutcome where
  txids : String
  status : OperationStatus
  message : Option String
  deriving DecidableEq

/-- The result ends the operation without an acknowledgement. -/
def isCleanTerminal (kind : OperationKind) (status : OperationStatus) : Bool :=
  status = .broadcasted ∧ ¬ kind.requiresAck

def applyBroadcastOutcome (operationId : String) (kind : OperationKind)
    (outcome : BroadcastOutcome) (outbox : Outbox) : Except String Outbox := do
  let changes (operation : Operation) : Bool := operation.operationId = operationId ∧
    (isCleanTerminal kind outcome.status ∨ operation.state = .signedPendingBroadcast)
  ensure (outbox.operations.countP changes = 1)
    s!"Ledger operation {operationId} changed while its broadcast result was recorded"
  let operations :=
    if isCleanTerminal kind outcome.status then
      outbox.operations.filter fun operation => !changes operation
    else
      outbox.operations.map fun operation =>
        if changes operation then
          { operation with
            state := .resultPendingAck
            txid := some outcome.txids
            status := some outcome.status
            message := outcome.message }
        else operation
  let rows :=
    if outcome.status = .broadcasted ∨ outcome.status = .expired then
      Send.releaseOperation operationId outbox.rows
    else outbox.rows
  return ⟨operations, rows⟩

/-- `to_ascii_lowercase` -/
def normalized (message : String) : List Char := message.toList.map Char.toLower

def mentions (phrase message : String) : Bool := phrase.toList <:+: normalized message

def isTerminalBroadcastFailure (message : String) : Bool :=
  mentions "expired before broadcast" message || mentions "broadcast rejected" message

/-- The flag tells that the operation has ended. -/
def recordBroadcastFailure (operationId message : String) (outbox : Outbox) : Outbox × Bool :=
  let pending (operation : Operation) : Bool :=
    operation.operationId = operationId ∧ operation.state = .signedPendingBroadcast
  if isTerminalBroadcastFailure message then
    (⟨outbox.operations.filter fun operation => !pending operation,
      Send.releaseOperation operationId outbox.rows⟩, true)
  else
    ({ outbox with
      operations := outbox.operations.map fun operation =>
        if pending operation then
          { operation with status := some .retryableError, message := some message }
        else operation }, false)

end VizorWallet.Ledger
