import VizorWallet.Library.Assoc
import VizorWallet.Library.Reorganization
import VizorWallet.Library.Stopping
import VizorWallet.Library.Transition
import Mathlib.Data.List.Sort

/-!
# Ledger discovery

The one-time recovery pass over the transparent history of imported Ledger accounts, of
`wallet/sync_engine/ledger_discovery.rs`, and what happens between its runs.

An `Environment` says of every point at which a pass waits, asks or writes when it is reached and
how it ends there. The server answers from the chain of that time.

## Main definitions

* `Progress`, `Checkpoint` — how far a scope is scanned, and the row that records it.
* `isReady`, `load`, `save`, `deleteAccount`, `invalidateForRewind`
* `nextCandidates`, `storeHistory`, `scan`, `discoverScope`, `runWith`
* `discovery` — the passes, rewinds, imports and deletions of a wallet.
-/

namespace VizorWallet.Discovery

/-! ## Checkpoints -/

inductive SyncError
  | network (text : String)
  | db (text : String)
  | parse (text : String)
  | other (text : String)
  deriving DecidableEq

structure Progress where
  nextIndex : ℕ
  unused : ℕ
  deriving DecidableEq, Inhabited

def concurrency : ℕ := 4

def Progress.advance (progress : Progress) (used : Bool) : Except SyncError Progress :=
  if progress.nextIndex + 1 ≤ 0x80000000 then
    .ok ⟨progress.nextIndex + 1, if used then 0 else progress.unused + 1⟩
  else
    .error (.other "Ledger discovery exhausted transparent indices")

def Progress.batchSize (progress : Progress) (gap : ℕ) : ℕ :=
  min (gap - progress.unused) concurrency

abbrev AccountUuid := String

abbrev BlockHash := String

abbrev TransparentKey := String

inductive KeyScope
  | external
  | internal
  deriving DecidableEq

/-- The defaults of `GapLimits`. -/
def gapLimit : KeyScope → ℕ
  | .external => 10
  | .internal => 5

/-- The primary key of the checkpoints. -/
structure ScopeKey where
  account : AccountUuid
  scope : KeyScope
  deriving DecidableEq

structure Checkpoint where
  progress : Progress
  tipHeight : ℕ
  tipHash : BlockHash
  complete : ℕ
  deriving DecidableEq

/-! ## The wallet -/

structure Account where
  uuid : AccountUuid
  keySource : Option String
  transparentKey : Option TransparentKey
  deriving DecidableEq

def keySourceLedger : String := "vizor.hardware.ledger.v1"

structure RawTransaction where
  height : ℕ
  data : String
  deriving DecidableEq

structure Transaction where
  txid : String
  deriving DecidableEq

/-- A history that was read to its end. -/
structure Drained where
  address : String
  tip : ℕ
  items : List RawTransaction
  deriving DecidableEq

/-- The wallet database, the time, and the histories read so far; no pass reads the last two. -/
structure World where
  accounts : List Account
  addresses : List (ScopeKey × List ℕ)
  transactions : List (Transaction × Option ℕ)
  table : Option (List (ScopeKey × Checkpoint))
  now : ℕ
  drained : List Drained

/-- Reading transactions, deriving receivers, and what a stored transaction has to do with. -/
structure Packages where
  read : RawTransaction → Except String Transaction
  receiver : TransparentKey → KeyScope → ℕ → String
  addressForQuery : String → Except String String
  touches : Transaction → Account → Bool

/-- The chain of the server at each time, and the histories it gives up to a height. -/
structure Server where
  blockHash : ℕ → ℕ → BlockHash
  history : ℕ → String → ℕ → List RawTransaction

/-- The chain changes by forks, and histories belong to it. -/
def Server.Reorganizes (server : Server) : Prop :=
  VizorWallet.Reorganizes server.blockHash fun time height address =>
    server.history time address height

namespace World

variable (world : World)

/-- Read-only gate: a missing checkpoint means a Ledger import still needs recovery. -/
def isReady (id : AccountUuid) : Except String Bool :=
  match world.accounts.find? (·.uuid = id) with
  | none => .error "Query returned no rows"
  | some account =>
    if account.keySource ≠ some keySourceLedger then
      .ok true
    else
      match world.table with
      | none => .ok false
      | some rows =>
        .ok ((rows.filter fun row => row.1.account = id ∧ row.2.complete = 2).length = 2)

def ensureTable : World := { world with table := some (world.table.getD []) }

def load (id : AccountUuid) (scope : KeyScope) : Option Checkpoint :=
  (world.table.getD []).lookup ⟨id, scope⟩

/-- Insert or update the checkpoint of a scope while the account exists. -/
def save (id : AccountUuid) (scope : KeyScope) (checkpoint : Checkpoint) : World :=
  if world.accounts.any (·.uuid = id) then
    { world with table := world.table.map (insertKey ⟨id, scope⟩ checkpoint) }
  else
    world

/-- Account-complete (2) opens shielding. -/
def publish (id : AccountUuid) : World :=
  { world with table := world.table.map fun rows => rows.map fun row =>
      if row.1.account = id ∧ row.2.complete = 1 then
        (row.1, { row.2 with complete := 2 })
      else
        row }

/-- Set the mined height of a transaction, storing it if it is new. -/
def storeTransaction (transaction : Transaction) (height : ℕ) : World :=
  { world with transactions := insertKey transaction (some height) world.transactions }

/-- Drop the checkpoints above a height. -/
def invalidateForRewind (height : ℕ) : World :=
  { world with table := world.table.map fun rows => rows.filter fun row =>
      row.2.tipHeight ≤ height }

/-- Transactions above the height the wallet is rewound to are mined no longer. -/
def truncateToHeight (reached : ℕ) : World :=
  { world with transactions := world.transactions.map fun entry =>
      (entry.1, entry.2.filter (· ≤ reached)) }

/-- Delete an account, its checkpoints, and the transactions of no other account. -/
def deleteAccount (packages : Packages) (id : AccountUuid) : World :=
  { world with
    accounts := world.accounts.filter (·.uuid ≠ id)
    addresses := world.addresses.filter (·.1.account ≠ id)
    transactions := world.transactions.filter fun entry =>
      ¬ (world.accounts.any fun account => account.uuid = id ∧ packages.touches entry.1 account) ∨
        world.accounts.any fun account => account.uuid ≠ id ∧ packages.touches entry.1 account
    table := world.table.map fun rows => rows.filter (·.1.account ≠ id) }

end World

/-! ## Points of a pass -/

/-- Where a pass waits, asks whether to exit, or uses the database. -/
inductive Point
  | accounts
  | table
  | ready (id : AccountUuid)
  | checkpoint (id : AccountUuid) (scope : KeyScope)
  | resume (id : AccountUuid) (scope : KeyScope)
  | anchor (id : AccountUuid) (scope : KeyScope)
  | begin (id : AccountUuid) (scope : KeyScope)
  | generate (id : AccountUuid) (scope : KeyScope) (index : ℕ)
  | candidates (id : AccountUuid) (scope : KeyScope) (index : ℕ)
  | opening (id : AccountUuid) (scope : KeyScope) (index : ℕ)
  | message (id : AccountUuid) (scope : KeyScope) (index item : ℕ)
  | store (id : AccountUuid) (scope : KeyScope) (index item : ℕ)
  | advance (id : AccountUuid) (scope : KeyScope) (index : ℕ)
  | final (id : AccountUuid) (scope : KeyScope)
  | restart (id : AccountUuid) (scope : KeyScope)
  | complete (id : AccountUuid) (scope : KeyScope)
  | confirm (id : AccountUuid) (scope : KeyScope)
  | confirmHash (id : AccountUuid) (scope : KeyScope)
  | retry (id : AccountUuid) (scope : KeyScope)
  | publish (id : AccountUuid)
  deriving DecidableEq

/-- How a pass leaves a point: it goes on, it finds that it shall exit, it fails, or the process
ends there. -/
inductive Outcome
  | done
  | exits
  | fails (error : SyncError)
  | crashes

/-- When a point is reached, how it is left, and the indices that address generation registers. -/
structure Moment where
  time : ℕ
  outcome : Outcome
  registered : List ℕ

abbrev Environment := Point → Moment

inductive Stop
  | exited
  | failed (error : SyncError)
  | crashed
  deriving DecidableEq

abbrev Pass := Stopping Stop World

/-! ## A pass -/

section Pass

variable (server : Server) (packages : Packages) (environment : Environment)

/-- The clock does not run backwards: a point whose time has passed is not reached. -/
def reach (point : Point) : Pass Outcome := do
  let world ← get
  if (environment point).time < world.now then
    throw .crashed
  modify fun world => { world with now := (environment point).time }
  pure (environment point).outcome

/-- `if should_exit() { return Ok(()) }` -/
def checkExit (point : Point) : Pass Unit := do
  match ← reach environment point with
  | .exits => throw .exited
  | .crashes => throw .crashed
  | _ => pure ()

/-- A use of the database, which never exits. -/
def database (point : Point) : Pass Unit := do
  match ← reach environment point with
  | .fails error => throw (.failed error)
  | .crashes => throw .crashed
  | _ => pure ()

/-- A wait, which the wish to exit interrupts. -/
def await (point : Point) : Pass Unit := do
  match ← reach environment point with
  | .done => pure ()
  | .exits => throw .exited
  | .fails error => throw (.failed error)
  | .crashes => throw .crashed

def fail {α : Type} (error : SyncError) : Pass α := throw (.failed error)

/-- The block hash that the server answers with. -/
def blockHash (point : Point) (height : ℕ) : Pass BlockHash := do
  await environment point
  pure (server.blockHash (← get).now height)

def save (point : Point) (id : AccountUuid) (scope : KeyScope) (checkpoint : Checkpoint) :
    Pass Unit := do
  database environment point
  modify fun world => world.save id scope checkpoint

/-- The next registered receivers from an index on, and the addresses to ask for. -/
def nextCandidates (world : World) (id : AccountUuid) (key : TransparentKey) (scope : KeyScope)
    (nextIndex limit : ℕ) : Except String (List (ℕ × String)) :=
  let registered := ((world.addresses.lookup ⟨id, scope⟩).getD []).filter (nextIndex ≤ ·)
  ((registered.insertionSort (· ≤ ·)).take limit).mapM fun index => do
    let address ← packages.addressForQuery (packages.receiver key scope index)
    pure (index, address)

/-- Ask for the histories of the candidates. -/
def openHistories (id : AccountUuid) (scope : KeyScope) (scanTip : ℕ) :
    List (ℕ × String) → Pass (List (ℕ × Drained))
  | [] => pure []
  | (index, address) :: rest => do
    await environment (.opening id scope index)
    let items := server.history (← get).now address scanTip
    let others ← openHistories id scope scanTip rest
    pure ((index, ⟨address, scanTip, items⟩) :: others)

/-- Drain a history, storing its transactions, and tell whether it had any. -/
def storeHistory (id : AccountUuid) (scope : KeyScope) (index : ℕ) (history : Drained) :
    ℕ → List RawTransaction → Pass Bool
  | transactions, [] => do
    await environment (.message id scope index transactions)
    modify fun world => { world with drained := history :: world.drained }
    pure (0 < transactions)
  | transactions, raw :: rest => do
    await environment (.message id scope index transactions)
    if ¬ (0 < raw.height ∧ raw.height ≤ history.tip) then
      fail (.parse "Ledger history returned an invalid mined height")
    match packages.read raw with
    | .error error => fail (.parse ("Ledger history transaction: " ++ error))
    | .ok transaction =>
      checkExit environment (.store id scope index transactions)
      database environment (.store id scope index transactions)
      modify fun world => world.storeTransaction transaction raw.height
      storeHistory id scope index history (transactions + 1) rest

/-- Drain the histories of a batch; the checkpoint advances with each. -/
def scanBatch (id : AccountUuid) (scope : KeyScope) (scanTip : ℕ) (hash : BlockHash) :
    List (ℕ × Drained) → Progress → Pass Progress
  | [], progress => pure progress
  | (index, history) :: rest, progress => do
    if index ≠ progress.nextIndex then
      fail (.db "Ledger discovery candidate index skipped")
    let used ← storeHistory packages environment id scope index history 0 history.items
    checkExit environment (.advance id scope index)
    match progress.advance used with
    | .error error => fail error
    | .ok progress =>
      save environment (.advance id scope index) id scope ⟨progress, scanTip, hash, 0⟩
      scanBatch id scope scanTip hash rest progress

/-- Scan until a gap of unused addresses. Every round advances the next index, which `advance`
bounds, so the rounds never run out. -/
def scan (id : AccountUuid) (key : TransparentKey) (scope : KeyScope) (scanTip : ℕ)
    (hash : BlockHash) : ℕ → Progress → Pass Progress
  | 0, _ => throw .crashed
  | rounds + 1, progress => do
    if progress.unused < gapLimit scope then
      checkExit environment (.generate id scope progress.nextIndex)
      database environment (.generate id scope progress.nextIndex)
      modify fun world => { world with
        addresses := insertKey ⟨id, scope⟩
          (environment (.generate id scope progress.nextIndex)).registered world.addresses }
      database environment (.candidates id scope progress.nextIndex)
      match nextCandidates packages (← get) id key scope progress.nextIndex
          (progress.batchSize (gapLimit scope)) with
      | .error error => fail (.parse error)
      | .ok candidates =>
        if candidates.head?.map Prod.fst ≠ some progress.nextIndex then
          fail (.db "Ledger discovery candidate range is incomplete")
        let streams ← openHistories server environment id scope scanTip candidates
        let progress ← scanBatch packages environment id scope scanTip hash streams progress
        scan id key scope scanTip hash rounds progress
    else
      pure progress

/-- Where to scan from and up to which tip; `none` when the scope is complete. -/
def resume (id : AccountUuid) (scope : KeyScope) (tip : ℕ) :
    Option Checkpoint → Pass (Option (Progress × ℕ))
  | none => pure (some (default, tip))
  | some saved =>
    if saved.tipHeight ≤ tip then do
      let actual ← blockHash server environment (.resume id scope) saved.tipHeight
      if actual = saved.tipHash then
        if saved.complete ≠ 0 then
          pure none
        else
          pure (some (saved.progress, saved.tipHeight))
      else
        pure (some (default, tip))
    else
      pure (some (default, tip))

/-- A reorg during the pass must not turn stale empty responses into completion. -/
def discoverScope (tip : ℕ) (id : AccountUuid) (key : TransparentKey) (scope : KeyScope) :
    Pass Unit := do
  checkExit environment (.checkpoint id scope)
  database environment (.checkpoint id scope)
  match ← resume server environment id scope tip ((← get).load id scope) with
  | none => pure ()
  | some (progress, scanTip) =>
    let hash ← blockHash server environment (.anchor id scope) scanTip
    checkExit environment (.begin id scope)
    save environment (.begin id scope) id scope ⟨progress, scanTip, hash, 0⟩
    let progress ←
      scan server packages environment id key scope scanTip hash (0x80000000 + 1) progress
    let finalHash ← blockHash server environment (.final id scope) scanTip
    if finalHash ≠ hash then
      save environment (.restart id scope) id scope ⟨default, scanTip, finalHash, 0⟩
      fail (.other "Ledger discovery chain changed; retrying")
    checkExit environment (.complete id scope)
    save environment (.complete id scope) id scope ⟨progress, scanTip, hash, 1⟩

/-- Publish readiness only after both scopes agree with the chain. -/
def confirmScope (id : AccountUuid) (scope : KeyScope) : Pass Unit := do
  database environment (.confirm id scope)
  match (← get).load id scope with
  | none => fail (.db "Ledger recovery checkpoint missing")
  | some saved =>
    if saved.complete = 0 then
      fail (.db "Ledger recovery scope incomplete")
    let actual ← blockHash server environment (.confirmHash id scope) saved.tipHeight
    if actual ≠ saved.tipHash then
      checkExit environment (.retry id scope)
      save environment (.retry id scope) id scope ⟨default, saved.tipHeight, actual, 0⟩
      fail (.other "Ledger recovery scope chain changed; retrying")

def discoverAccount (tip : ℕ) (account : AccountUuid × TransparentKey) : Pass Unit := do
  database environment (.ready account.1)
  match (← get).isReady account.1 with
  | .error error => fail (.db error)
  | .ok true => pure ()
  | .ok false =>
    [KeyScope.external, .internal].forM
      (discoverScope server packages environment tip account.1 account.2)
    [KeyScope.external, .internal].forM (confirmScope server environment account.1)
    checkExit environment (.publish account.1)
    database environment (.publish account.1)
    modify fun world => world.publish account.1

/-- The Ledger accounts with their keys. -/
def ledgerAccounts (accounts : List Account) :
    Except SyncError (List (AccountUuid × TransparentKey)) :=
  (accounts.filter (·.keySource = some keySourceLedger)).mapM fun account =>
    match account.transparentKey with
    | none => .error (.other "Ledger account has no transparent viewing key")
    | some key => .ok (account.uuid, key)

def runWith (tip : ℕ) : Pass Unit := do
  database environment .accounts
  match ledgerAccounts (← get).accounts with
  | .error error => fail error
  | .ok accounts =>
    if accounts.isEmpty then
      pure ()
    else
      checkExit environment .table
      database environment .table
      modify World.ensureTable
      accounts.forM (discoverAccount server packages environment tip)

end Pass

/-! ## Runs -/

inductive Event
  | importAccount (account : Account)
  | run (tip : ℕ) (environment : Environment)
  | rewind (height : ℕ) (reached : Option ℕ)
  | deleteAccount (id : AccountUuid)

/-- A rewind invalidates first; the truncation after it may fail, or reach further down. -/
def World.step (server : Server) (packages : Packages) (world : World) : Event → Option World
  | .importAccount account =>
    if world.accounts.any (·.uuid = account.uuid) then
      none
    else
      some { world with accounts := world.accounts ++ [account] }
  | .run tip environment => some ((runWith server packages environment tip).runFrom world).2
  | .rewind height reached =>
    if reached.all (· ≤ height) then
      some (reached.elim (world.invalidateForRewind height)
        (world.invalidateForRewind height).truncateToHeight)
    else
      none
  | .deleteAccount id => some (world.deleteAccount packages id)

/-- A wallet from its creation on. -/
def discovery (server : Server) (packages : Packages) : Transition World Event where
  init := ⟨[], [], [], none, 0, []⟩
  step := World.step server packages

end VizorWallet.Discovery
