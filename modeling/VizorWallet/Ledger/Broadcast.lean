import VizorWallet.Send.Recovery

/-!
# Broadcasts of signed Ledger operations

A broadcast takes the rounds of a pending operation, sends their transactions one after the other,
and records a result. The process may end after any transaction was sent, and the result may not be
recorded; the operation is then still pending, and a later broadcast starts over from the signed
rounds and the chain tip.

## Main definitions

* `pcztBroadcastStep`, `storeAndBroadcast` — the sending, given the answers of the network.
* `LedgerWorld` — the wallet, and the transactions that the network may have accepted.
* `ledger` — operations of the wallet, broadcasts, acknowledgements and recoveries.
-/

namespace VizorWallet.Ledger

open Send (World SendEvent SendOperation SessionId)

/-! ## Answers of a server -/

structure SendResponse where
  errorCode : ℤ
  errorMessage : String
  deriving DecidableEq

def acceptedPhrases : List String :=
  ["transaction was committed to the best chain", "already in mempool", "already have transaction",
    "transaction already in block chain", "transaction is already in state",
    "transaction already exists", "txn-already-known", "txn-already-in-mempool", "already known"]

def sendRejectionIsAlreadyAccepted (message : String) : Bool :=
  acceptedPhrases.any (mentions · message)

def sendResponseRejectionError (response : SendResponse) : Option String :=
  if response.errorCode = 0 ∨ sendRejectionIsAlreadyAccepted response.errorMessage then none
  else some ("Broadcast rejected: " ++
    s!"{response.errorMessage} (code {response.errorCode})")

/-- What `SendTransaction` gives, or the error of its transport. -/
abbrev SendAnswer := Except String SendResponse

/-- The server has rejected the transaction. -/
def SendAnswer.rejects : SendAnswer → Bool
  | .ok response => (sendResponseRejectionError response).isSome
  | .error _ => false

/-! ## One broadcast -/

inductive PcztBroadcastAttempt where
  | accepted
  | transportUnknown (error : String)
  | definiteRejection (error : String)
  | routeUnavailable (error : String)

def SendAnswer.attempt : SendAnswer → PcztBroadcastAttempt
  | .ok response =>
    match sendResponseRejectionError response with
    | some error => .definiteRejection error
    | none => .accepted
  | .error error => .transportUnknown error

structure PcztBroadcastPlan where
  persistedPrefixLen : ℕ
  broadcastedCount : ℕ
  status : OperationStatus
  message : Option String

inductive PcztBroadcastStep where
  | next
  | stop (plan : PcztBroadcastPlan)
  | fail (error : String)

def pcztBroadcastStep (index totalCount : ℕ) : PcztBroadcastAttempt → PcztBroadcastStep
  | .accepted =>
    if index + 1 < totalCount then .next else .stop ⟨index + 1, index + 1, .broadcasted, none⟩
  | .transportUnknown error =>
    .stop ⟨index + 1, index, if index = 0 then .broadcastUnknown else .partialBroadcast,
      some (s!"Transaction {index + 1} of {totalCount} has an unknown broadcast result: " ++ error)⟩
  | .definiteRejection error =>
    if index = 0 then .fail error
    else .stop ⟨index, index, .partialBroadcast,
      some (s!"Transaction {index + 1} of {totalCount} was rejected and was not stored: " ++ error)⟩
  | .routeUnavailable error =>
    if index = 0 then .fail error
    else .stop ⟨index, index, .partialBroadcast,
      some ("Failed to open the broadcast route for transaction " ++
        s!"{index + 1} of {totalCount}; it was not stored: " ++ error)⟩

def pcztBroadcastExpiryError (txid : String) (expiryHeight currentHeight : ℕ) : Option String :=
  if expiryHeight = 0 ∨ currentHeight < expiryHeight then none
  else some ("Hardware signing request expired before broadcast: " ++
    s!"txid={txid}, expiry height {expiryHeight}, current chain height {currentHeight}. " ++
    "Start the signing flow again so Vizor can build a fresh transaction.")

/-- What a broadcast gets from outside: the check of its signed rounds, the route to the server, the
chain tip, the routes and the answers of later rounds, and the local storage. -/
structure BroadcastAnswers where
  prepared : Except String Unit
  route : Except String Unit
  latest : Except String ℕ
  reopened : ℕ → Except String Unit
  sent : ℕ → SendAnswer
  stored : Except String Unit

/-- A transaction that was sent, with the answer. -/
abbrev Sending := String × SendAnswer

/-- The answers to the rounds from an index on: what was sent, and the plan that remains. -/
def broadcastRounds (answers : BroadcastAnswers) (totalCount : ℕ) :
    ℕ → List SignedRound → List Sending × Except String PcztBroadcastPlan
  | _, [] => ([], .error "a non-empty PCZT set always yields a terminal broadcast plan")
  | index, round :: rest =>
    -- The first round uses the route that has read the chain tip.
    match if index = 0 then .ok () else answers.reopened index with
    | .error error =>
      match pcztBroadcastStep index totalCount (.routeUnavailable error) with
      | .stop plan => ([], .ok plan)
      | .fail error => ([], .error error)
      | .next => ([], .error "unreachable")
    | .ok () =>
      let answer := answers.sent index
      match pcztBroadcastStep index totalCount answer.attempt with
      | .next =>
        let (sendings, plan) := broadcastRounds answers totalCount (index + 1) rest
        ((round.txid, answer) :: sendings, plan)
      | .stop plan => ([(round.txid, answer)], .ok plan)
      | .fail error => ([(round.txid, answer)], .error error)

def joinedTxids (rounds : List SignedRound) : String :=
  ",".intercalate (rounds.map SignedRound.txid)

/-- The expiry that a chain tip gives. -/
def expiryError (rounds : List SignedRound) (height : ℕ) : Option String :=
  rounds.findSome? fun round => pcztBroadcastExpiryError round.txid round.expiryHeight height

/-- The result of a plan, when the transactions that were sent are stored. -/
def storePlan (rounds : List SignedRound) (plan : PcztBroadcastPlan) :
    Except String Unit → BroadcastOutcome
  | .ok () => ⟨joinedTxids rounds, plan.status, plan.message.map (· ++
      " The accepted-or-ambiguous transaction prefix was stored locally for recovery.")⟩
  | .error error => ⟨joinedTxids rounds,
      if plan.broadcastedCount = rounds.length then .broadcastedStorageFailed else plan.status,
      some ((plan.message.map (· ++ " ")).getD "" ++
        "A transaction may already be on the network, but local storage failed: " ++ error ++
        ". Do not send again until sync or an explorer confirms the result.")⟩

/-- The chain tip that a broadcast reads first. -/
def BroadcastAnswers.chainTip (answers : BroadcastAnswers) : Except String ℕ := do
  answers.prepared
  answers.route.mapError ("Failed to open the broadcast route: " ++ ·)
  answers.latest.mapError ("Failed to read the chain tip before broadcast: " ++ ·)

/-- `store_and_broadcast_signed_pczts`, with what was sent. -/
def storeAndBroadcast (answers : BroadcastAnswers) (rounds : List SignedRound) :
    List Sending × Except String BroadcastOutcome :=
  match answers.chainTip with
  | .error error => ([], .error error)
  | .ok height =>
    match expiryError rounds height with
    | some error => ([], .ok ⟨joinedTxids rounds, .expired, some error⟩)
    | none =>
      let (sendings, plan) := broadcastRounds answers rounds.length 0 rounds
      (sendings, plan.map fun plan => storePlan rounds plan answers.stored)

/-! ## Runs -/

/-- The wallet, and the transactions that were sent and not rejected. -/
structure LedgerWorld where
  wallet : World
  submitted : List String

abbrev LedgerWorld.operations (world : LedgerWorld) : List Operation :=
  world.wallet.outbox.operations

/-- The transactions that the network may have accepted. -/
def mayBeAccepted (sendings : List Sending) : List String :=
  (sendings.filter fun sending => !sending.2.rejects).map Prod.fst

/-- The operation records its result, unless the database fails. -/
def recordResult (operation : Operation) (recorded : Bool) (world : World) :
    Except String BroadcastOutcome → List World
  | .ok outcome =>
    if recorded then
      world.commit (applyBroadcastOutcome operation.operationId operation.kind outcome world.outbox)
    else []
  | .error error =>
    if recorded then
      world.commit (.ok (recordBroadcastFailure operation.operationId error world.outbox).1)
    else []

/-- How a call ends: it returns, or the process ends after some commits and another one starts. -/
inductive Ending where
  | returns
  | crash (commits : ℕ) (session : SessionId)

def Ending.apply (world : World) (states : List World) : Ending → World
  | .returns => world.last states
  | .crash commits session => (world.last (states.take commits)).restart session

/-- Some commit was made. -/
def Ending.commits : Ending → Bool
  | .returns => true
  | .crash commits _ => commits ≠ 0

/-- How a broadcast ends: the database may record its result or fail to, or the process may end
while it sends its transactions. -/
inductive BroadcastEnding where
  | recorded (ending : Ending)
  | unrecorded (ending : Ending)
  | crash (sent : ℕ) (session : SessionId)

/-- What a broadcast has sent when it ends. -/
def BroadcastEnding.sendings (all : List Sending) : BroadcastEnding → List Sending
  | .recorded _ | .unrecorded _ => all
  | .crash sent _ => all.take sent

inductive LedgerEvent where
  | wallet (event : SendEvent)
  | broadcast (operationId : String) (answers : BroadcastAnswers) (ending : BroadcastEnding)
  | acknowledge (operationId : String)
  | recoverPreviousProcess (targetHeight : Option ℕ) (ending : Ending)

/-- The states of a broadcast after its transactions were sent: its result, and the cleanup of
reservations. -/
def resultStates (operation : Operation) (recorded : Bool) (world : World)
    (result : Except String BroadcastOutcome) : List World :=
  let states := recordResult operation recorded world result
  states ++ Send.recoverBeforeBalance (world.last states)

def broadcastStep (world : LedgerWorld) (operation : Operation) (answers : BroadcastAnswers)
    (ending : BroadcastEnding) : LedgerWorld :=
  let (sendings, result) := storeAndBroadcast answers operation.rounds
  ⟨match ending with
    | .recorded ending =>
      ending.apply world.wallet (resultStates operation true world.wallet result)
    | .unrecorded ending =>
      ending.apply world.wallet (resultStates operation false world.wallet result)
    | .crash _ session => world.wallet.restart session,
   mayBeAccepted (ending.sendings sendings) ++ world.submitted⟩

def ledgerStep (world : LedgerWorld) : LedgerEvent → LedgerWorld
  | .wallet event => { world with wallet := Send.sendStep world.wallet event }
  | .broadcast operationId answers ending =>
    match loadForBroadcast operationId world.wallet.outbox with
    | .error _ => world
    | .ok operation => broadcastStep world operation answers ending
  | .acknowledge operationId =>
    { world with
      wallet := world.wallet.last
        (world.wallet.commit (acknowledge operationId world.wallet.outbox)) }
  | .recoverPreviousProcess targetHeight ending =>
    { world with
      wallet := ending.apply world.wallet (Send.recoverPreviousProcess targetHeight world.wallet) }

def ledger (initial : World) : Transition LedgerWorld LedgerEvent :=
  ⟨⟨initial, []⟩, fun world event => some (ledgerStep world event)⟩

/-- Results are recorded by broadcasts only. -/
def isResult : SendOperation → Bool
  | .applyBroadcastOutcome _ _ _ | .recordBroadcastFailure _ _ => true
  | _ => false

def LedgerEvent.Genuine (world : LedgerWorld) : LedgerEvent → Prop
  | .wallet event => event.Genuine world.wallet ∧
    match event with
    | .complete operation | .crash operation _ _ => ¬ isResult operation
    | .others _ => True
  | _ => True

end VizorWallet.Ledger
