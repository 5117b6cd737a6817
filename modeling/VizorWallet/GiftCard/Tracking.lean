import VizorWallet.Ledger.Operations
import VizorWallet.Library.Hex
import VizorWallet.Library.Outcome
import VizorWallet.Machine
import Mathlib.Data.Finset.Basic
import Mathlib.Data.List.DropRight
import Mathlib.Data.List.MinMax
import Mathlib.Data.List.Sort

/-!
# Usage evidence of gift cards

The observer of the sender, `wallet/gift_card_tracking.rs`: what its database says about the funding
of a card and about what was spent of it.

## Main definitions

* `ObserverDb` — the tables that are read.
* `verifiedHeight` — the height below which everything was scanned.
* `Tally.step` — what one received output adds.
* `inspectConnection`, `inspectGiftCardUsage` — the evidence.
-/

namespace VizorWallet.GiftCard

open Ledger (isWhitespace)

/-! ## The database -/

/-- A row of `v_received_outputs`. Pool `0` is the transparent one. -/
structure ReceivedOutput where
  accountId : ℕ
  pool : ℕ
  idWithinPoolTable : ℕ
  value : ℕ
  transactionId : ℕ
  deriving DecidableEq

structure TransactionRow where
  idTx : ℕ
  txid : Fixed 32
  minedHeight : Option ℕ
  deriving DecidableEq

/-- A row of `v_received_output_spends`. -/
structure OutputSpend where
  pool : ℕ
  receivedOutputId : ℕ
  transactionId : ℕ
  deriving DecidableEq

structure ScanRange where
  blockRangeStart : ℕ
  priority : ℕ
  deriving DecidableEq

structure ObserverDb where
  accounts : List (ℕ × Bytes)
  /-- Heights are nonnegative 64-bit integers. -/
  blocks : List (Fin (2 ^ 63))
  scanQueue : List ScanRange
  transactions : List TransactionRow
  receivedOutputs : List ReceivedOutput
  outputSpends : List OutputSpend

/-- `ORDER BY … LIMIT 1`: any row of the least key. -/
structure FirstBy {α : Type*} (key : α → ℕ) where
  pick : List α → Option α
  mem : ∀ {l a}, pick l = some a → a ∈ l
  le : ∀ {l a}, pick l = some a → ∀ b ∈ l, key a ≤ key b
  eq_nil : ∀ {l}, pick l = none → l = []

/-- The highest block. -/
def highestBlock (db : ObserverDb) : Option ℕ := (db.blocks.map Fin.val).max?

/-- Where the lowest range starts that is still to be scanned. -/
def firstPending (db : ObserverDb) : Option ℕ :=
  ((db.scanQueue.filter fun range => 10 < range.priority).map (·.blockRangeStart)).min?

/-- The height below which everything was scanned. Subtraction stops at zero, as `MAX(0, …)`. -/
def verifiedHeight (db : ObserverDb) : ℕ :=
  min ((highestBlock db).getD 0) (((firstPending db).map (· - 1) <|> highestBlock db).getD 0)

/-- The positive outputs of an account, each with its transaction. -/
def receivedRows (db : ObserverDb) (account : ℕ) : List (ReceivedOutput × TransactionRow) :=
  (db.receivedOutputs.filter fun output => output.accountId = account ∧ 0 < output.value).flatMap
    fun output => (db.transactions.filter (·.idTx = output.transactionId)).map (output, ·)

/-- The mined spends of an output up to a height. -/
def minedSpends (db : ObserverDb) (height : ℕ) (output : ReceivedOutput) : List (Bytes × ℕ) :=
  (db.outputSpends.filter fun spend =>
      spend.pool = output.pool ∧ spend.receivedOutputId = output.idWithinPoolTable).flatMap
    fun spend => (db.transactions.filter (·.idTx = spend.transactionId)).filterMap fun tx =>
      (tx.minedHeight.filter fun mined => 1 ≤ mined ∧ mined ≤ height).map fun mined =>
        (Hex.encode tx.txid.1, mined)

/-! ## Transaction ids -/

/-- The bytes of a text. -/
def bytesOf (text : List Char) : Bytes := text.flatMap String.utf8EncodeChar

def trim (text : List Char) : List Char := (text.dropWhile isWhitespace).rdropWhile isWhitespace

def eqIgnoreAsciiCase (a b : Bytes) : Bool := a.map Hex.lower = b.map Hex.lower

def matchesId (stored : Bytes) (wire : List Char) : Bool :=
  eqIgnoreAsciiCase stored (bytesOf wire) ||
    (Hex.decode (bytesOf wire)).any fun bytes =>
      eqIgnoreAsciiCase (Hex.encode bytes.reverse) stored

/-- The ids of a list that commas separate. -/
def expectedIds (fundingTxids : List Char) : Finset (List Char) :=
  (((fundingTxids.splitOn ',').map trim).filter (· ≠ [])).toFinset

/-! ## Evidence -/

/-- `u64::saturating_add` -/
def saturatingAdd (a b : ℕ) : ℕ := min (a + b) (u64Size - 1)

/-- `BTreeSet::insert` -/
def insertText (text : Bytes) (texts : List Bytes) : List Bytes :=
  if text ∈ texts then texts else texts.orderedInsert (· ≤ ·) text

/-- What the loop over the received outputs has gathered. -/
structure Tally where
  found : Finset (List Char) := ∅
  value : ℕ := 0
  allSettled : Bool := true
  anySpent : Bool := false
  remaining : Bool := false
  spentHeight : ℕ := 0
  spending : List Bytes := []

section Evidence

variable (F : FirstBy (Prod.snd : Bytes × ℕ → ℕ)) (db : ObserverDb) (height : ℕ)
  (ids : Finset (List Char))

/-- One received output. -/
def Tally.step (tally : Tally) (row : ReceivedOutput × TransactionRow) : Tally :=
  let txid := Hex.encode row.2.txid.1
  let isFunding := row.1.pool ≠ 0 ∧ ∃ id ∈ ids, matchesId txid id
  let spent := F.pick (minedSpends db height row.1)
  let settled := spent.any fun spend => saturatingAdd spend.2 5 ≤ height
  let tally := { tally with remaining := tally.remaining || !settled }
  if ¬ isFunding then tally
  else if ¬ row.2.minedHeight.any (fun mined => 0 < mined ∧ mined ≤ height) then
    { tally with allSettled := false }
  else
    let tally := { tally with
      found := tally.found ∪ ids.filter (matchesId txid ·)
      value := saturatingAdd tally.value row.1.value
      allSettled := tally.allSettled && settled }
    match spent with
    | some (id, mined) => { tally with
        anySpent := true
        spentHeight := max tally.spentHeight mined
        spending := insertText id tally.spending }
    | none => tally

def tally (rows : List (ReceivedOutput × TransactionRow)) : Tally :=
  rows.foldl (Tally.step F db height ids) {}

structure GiftCardUsageEvidence where
  status : Bytes
  reason : Option Bytes
  verifiedHeight : ℕ
  spendingTxids : List Bytes
  spentHeight : ℕ
  canDelete : Bool

/-- The found funding is what was expected. -/
def Tally.funded (tally : Tally) (ids : Finset (List Char)) (expected : ℕ) : Bool :=
  ids ≠ ∅ ∧ tally.found = ids ∧ 0 < expected ∧ expected ≤ tally.value

def Tally.status (tally : Tally) (funded : Bool) : Bytes :=
  if ¬ funded then ascii "unknown"
  else if tally.allSettled then ascii "used"
  else if tally.anySpent then ascii "spendDetected"
  else ascii "unused"

def Tally.reason (tally : Tally) (ids : Finset (List Char)) (expected : ℕ) (funded : Bool) :
    Option Bytes :=
  if funded then none
  else if ids = ∅ ∨ expected = 0 then some (ascii "missingFundingInfo")
  else if tally.found ≠ ids then some (ascii "fundingNotObserved")
  else some (ascii "amountMismatch")

/-- What is reported of a tally. -/
def Tally.evidence (tally : Tally) (height : ℕ) (ids : Finset (List Char)) (expected : ℕ) :
    GiftCardUsageEvidence :=
  let funded := tally.funded ids expected
  let status := tally.status funded
  { status
    reason := tally.reason ids expected funded
    verifiedHeight := height
    spendingTxids := tally.spending
    spentHeight := tally.spentHeight
    canDelete := status = ascii "used" ∧ ¬ tally.remaining }

def inspectConnection (uuid : Bytes) (fundingTxids : List Char) (expected : ℕ) :
    Except String GiftCardUsageEvidence := do
  let account ← orError ((db.accounts.find? (·.2 = uuid)).map Prod.fst) "Query returned no rows"
  let height := verifiedHeight db
  let ids := expectedIds fundingTxids
  return (tally F db height ids (receivedRows db account)).evidence height ids expected

/-! ## Missing funding -/

/-- Why funding is missing, from the heights that a server knows of its transactions. -/
def fundingReason (heights : List (Option ℕ)) (verifiedHeight : ℕ) : Except String Bytes := do
  if heights = [] then return ascii "missingFundingInfo"
  ensure (∀ height ∈ heights, height.all fun h => h = 0 ∨ h = u64Size - 1 ∨ h < 2 ^ 32)
    "Funding transaction height out of range"
  if heights.contains none then return ascii "fundingNotObserved"
  if heights.contains (some 0) || heights.contains (some (u64Size - 1)) then
    return ascii "awaitingConfirmation"
  if heights.any (·.any (verifiedHeight < ·)) then return ascii "scanIncomplete"
  return ascii "fundingNotObserved"

/-- `lookup` is what the server answers, when it is asked. -/
def inspectGiftCardUsage (uuid : Bytes) (fundingTxids : List Char) (expected : ℕ)
    (lookup : Except String (List (Option ℕ))) : Except String GiftCardUsageEvidence := do
  let evidence ← inspectConnection F db uuid fundingTxids expected
  if evidence.reason = some (ascii "fundingNotObserved") then
    let reason ← fundingReason (← lookup) evidence.verifiedHeight
    return { evidence with reason := some reason }
  else
    return evidence

end Evidence

end VizorWallet.GiftCard
