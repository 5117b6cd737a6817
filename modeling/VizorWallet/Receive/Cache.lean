import VizorWallet.Library.Assoc
import VizorWallet.Library.Outcome
import VizorWallet.Migration.Store.Tables
import Mathlib.Data.List.MinMax
import Mathlib.Data.List.Sort

/-!
# The transparent receive cache

The sidecar of one account: the record of `wallet/transparent_receive_cache.rs`, the refreshes that
are planned from it, and the completions that are written back.

## Main definitions

* `CacheRecord`, `Sidecar` — the record, and what is stored of it.
* `readCompatibleRecord` — the record of this version and network.
* `externalUtxoRefreshBatches` — the batches of an address list.
* `planExternalUtxoRefresh`, `planInternalUtxoRefresh`, `planNonExternalUtxoRefresh`
* `markUtxoRefreshBatchComplete`, `markNonExternalUtxoRefreshComplete`, `invalidateUtxoChecks`
* `getCleanAddress` — the receive address that is handed out.
-/

namespace VizorWallet.Receive

open Migration.Store (WalletNetwork)

/-! ## Records -/

def cacheVersion : ℕ := 3

def transparentUtxoRequeryLookback : ℕ := 100

def internalUtxoRefreshInterval : ℕ := 20

structure CachedExternalAddress where
  childIndex : ℕ
  address : String
  hasReceived : Bool
  deriving DecidableEq

structure CacheRecord where
  version : ℕ
  network : String
  dirty : Bool
  refreshedScannedHeight : Option ℕ
  externalAddresses : List CachedExternalAddress
  utxoSweepNextOffset : ℕ
  utxoCheckedHeights : List (ℕ × ℕ)
  nonExternalCheckedHeights : List (String × ℕ)
  lastExternalSweepAt : Option ℕ
  internalSweepNextOffset : ℕ
  lastInternalSweepAt : Option ℕ
  legacyRewindEpoch : Option ℕ
  deriving DecidableEq

/-- A record as it is stored; older builds leave fields out. -/
structure EncodedRecord where
  version : ℕ
  network : String
  dirty : Bool
  refreshedScannedHeight : Option ℕ
  externalAddresses : List CachedExternalAddress
  utxoSweepNextOffset : Option ℕ
  utxoCheckedHeights : Option (List (ℕ × ℕ))
  nonExternalCheckedHeights : Option (List (String × ℕ))
  lastExternalSweepAt : Option ℕ
  internalSweepNextOffset : Option ℕ
  lastInternalSweepAt : Option ℕ
  rewindEpoch : Option ℕ

/-- What the sidecar holds for the account: nothing, a record, or a text that does not decode. -/
inductive Sidecar
  | missing
  | record (encoded : EncodedRecord)
  | malformed (error : String)

def CacheRecord.encode (record : CacheRecord) : EncodedRecord where
  version := record.version
  network := record.network
  dirty := record.dirty
  refreshedScannedHeight := record.refreshedScannedHeight
  externalAddresses := record.externalAddresses
  utxoSweepNextOffset := some record.utxoSweepNextOffset
  utxoCheckedHeights := some record.utxoCheckedHeights
  nonExternalCheckedHeights := some record.nonExternalCheckedHeights
  lastExternalSweepAt := record.lastExternalSweepAt
  internalSweepNextOffset := some record.internalSweepNextOffset
  lastInternalSweepAt := record.lastInternalSweepAt
  rewindEpoch := none

def EncodedRecord.decode (encoded : EncodedRecord) : CacheRecord where
  version := encoded.version
  network := encoded.network
  dirty := encoded.dirty
  refreshedScannedHeight := encoded.refreshedScannedHeight
  externalAddresses := encoded.externalAddresses
  utxoSweepNextOffset := encoded.utxoSweepNextOffset.getD 0
  utxoCheckedHeights := encoded.utxoCheckedHeights.getD []
  nonExternalCheckedHeights := collect (encoded.nonExternalCheckedHeights.getD [])
  lastExternalSweepAt := encoded.lastExternalSweepAt
  internalSweepNextOffset := encoded.internalSweepNextOffset.getD 0
  lastInternalSweepAt := encoded.lastInternalSweepAt
  legacyRewindEpoch := encoded.rewindEpoch

def networkCacheKey : WalletNetwork → String
  | .main => "main"
  | .test => "test"
  | .regtest => "regtest"

def emptyRecord (network : WalletNetwork) (scannedHeight : Option ℕ) : CacheRecord where
  version := cacheVersion
  network := networkCacheKey network
  dirty := false
  refreshedScannedHeight := scannedHeight
  externalAddresses := []
  utxoSweepNextOffset := 0
  utxoCheckedHeights := []
  nonExternalCheckedHeights := []
  lastExternalSweepAt := none
  internalSweepNextOffset := 0
  lastInternalSweepAt := none
  legacyRewindEpoch := none

/-- The record without its completions. -/
def CacheRecord.clearChecks (record : CacheRecord) : CacheRecord :=
  { record with
    utxoCheckedHeights := []
    nonExternalCheckedHeights := []
    utxoSweepNextOffset := 0
    internalSweepNextOffset := 0
    lastExternalSweepAt := none
    lastInternalSweepAt := none }

def retireLegacyCompletion (record : CacheRecord) : CacheRecord :=
  let retired := { record with legacyRewindEpoch := none }
  if record.legacyRewindEpoch.isSome then retired.clearChecks else retired

def writeRecord (record : CacheRecord) : Sidecar := .record record.encode

def readRecord : Sidecar → Except String (Option CacheRecord)
  | .missing => .ok none
  | .record encoded => .ok (some encoded.decode)
  | .malformed error => .error s!"transparent receive cache decode: {error}"

def readCompatibleRecord (network : WalletNetwork) (sidecar : Sidecar) :
    Except String (Option CacheRecord) := do
  match ← readRecord sidecar with
  | none => return none
  | some record =>
    if record.version = cacheVersion ∧ record.network = networkCacheKey network then
      return some (retireLegacyCompletion record)
    else return none

/-- The record of this version and network, unless it is dirty. -/
def cleanRecord (network : WalletNetwork) (sidecar : Sidecar) :
    Except String (Option CacheRecord) := do
  match ← readRecord sidecar with
  | none => return none
  | some record =>
    if record.version ≠ cacheVersion ∨ record.network ≠ networkCacheKey network ∨ record.dirty then
      return none
    else return some record

/-! ## Batches -/

structure TransparentUtxoRefreshBatch where
  addresses : List String
  childIndices : List ℕ
  startHeight : ℕ
  nextSweepOffset : Option ℕ
  deriving DecidableEq

/-- Where the query of an address starts, given its completion. -/
def startHeightOf (birthday safety : ℕ) : Option ℕ → ℕ
  | none => 0
  | some height => max (height - transparentUtxoRequeryLookback) (min birthday safety)

def refreshBatch (addresses : List CachedExternalAddress) (checkedHeights : List (ℕ × ℕ))
    (birthday safety : ℕ) (nextSweepOffset : Option ℕ) : Option TransparentUtxoRefreshBatch :=
  if addresses = [] then none
  else some {
    addresses := addresses.map (·.address)
    childIndices := addresses.map (·.childIndex)
    startHeight := ((addresses.map fun address =>
      startHeightOf birthday safety (checkedHeights.lookup address.childIndex)).min?).getD 0
    nextSweepOffset }

/-- Set the offset of the last batch. -/
def setLastOffset (nextSweepOffset : Option ℕ) :
    List TransparentUtxoRefreshBatch → List TransparentUtxoRefreshBatch
  | [] => []
  | [last] => [{ last with nextSweepOffset }]
  | batch :: rest => batch :: setLastOffset nextSweepOffset rest

def splitRefreshBatches (addresses : List CachedExternalAddress) (checked : List (ℕ × ℕ))
    (birthday safety : ℕ) (nextSweepOffset : Option ℕ) : List TransparentUtxoRefreshBatch :=
  let (unchecked, checkedAddresses) :=
    addresses.partition fun address => (checked.lookup address.childIndex).isNone
  setLastOffset nextSweepOffset
    ([unchecked, checkedAddresses].filterMap (refreshBatch · checked birthday safety none))

def externalUtxoRefreshBatches (addresses : List CachedExternalAddress)
    (utxoCheckedHeights : List (ℕ × ℕ)) (utxoSweepNextOffset birthday safety recentLimit
    sweepLimit : ℕ) : List TransparentUtxoRefreshBatch :=
  let eligible := addresses.insertionSort fun a b => b.childIndex ≤ a.childIndex
  let recent := eligible.take recentLimit
  let old := eligible.drop recent.length
  let checkedHeights := collect utxoCheckedHeights
  let batches := splitRefreshBatches recent checkedHeights birthday safety none
  if old ≠ [] ∧ 0 < sweepLimit then
    let offset := utxoSweepNextOffset % old.length
    let take := min sweepLimit old.length
    let selected := (List.range take).filterMap fun i => old[(offset + i) % old.length]?
    batches ++ splitRefreshBatches selected checkedHeights birthday safety
      (some ((offset + take) % old.length))
  else batches

/-! ## External addresses -/

def allExternalAddresses (addresses : List CachedExternalAddress) : List CachedExternalAddress :=
  (addresses.filter fun address => address.address ≠ "").insertionSort fun a b =>
    a.childIndex ≤ b.childIndex

def projectedExternalAddresses (addresses : List CachedExternalAddress) :
    List CachedExternalAddress :=
  let firstUnusedIndex := ((addresses.filter fun address =>
    address.address ≠ "" ∧ ¬ address.hasReceived).map (·.childIndex)).min?
  (addresses.filter fun address => address.address ≠ "" ∧
    (address.hasReceived ∨ some address.childIndex = firstUnusedIndex)).insertionSort fun a b =>
      a.childIndex ≤ b.childIndex

def firstUnusedExternalTransparentAddress (addresses : List CachedExternalAddress) :
    Option String :=
  ((addresses.filter fun address => ¬ address.hasReceived).argmin (·.childIndex)).map (·.address)

def preservedUtxoCheckedHeights (record : CacheRecord)
    (externalAddresses : List CachedExternalAddress) : List (ℕ × ℕ) :=
  let known := externalAddresses.map (·.childIndex)
  collect (record.utxoCheckedHeights.filter fun entry => entry.1 ∈ known)

section Operations

variable (network : WalletNetwork)

def planExternalUtxoRefresh (addresses : List CachedExternalAddress)
    (birthday safety recentLimit sweepLimit : ℕ) (sidecar : Sidecar) :
    Except String (List TransparentUtxoRefreshBatch × Sidecar) := do
  let discoveryAddresses := allExternalAddresses addresses
  let existing ← readCompatibleRecord network sidecar
  let record := existing.getD (emptyRecord network none)
  let record := { record with
    version := cacheVersion
    network := networkCacheKey network
    dirty := false
    utxoCheckedHeights := preservedUtxoCheckedHeights record discoveryAddresses
    externalAddresses := projectedExternalAddresses addresses }
  let batches := externalUtxoRefreshBatches discoveryAddresses record.utxoCheckedHeights
    record.utxoSweepNextOffset birthday safety recentLimit sweepLimit
  return (batches, writeRecord record)

def markUtxoRefreshBatchComplete (childIndices : List ℕ) (nextStartHeight : ℕ)
    (nextSweepOffset : Option ℕ) (nowSeconds : ℕ) (sidecar : Sidecar) : Except String Sidecar :=
  if childIndices = [] then .ok sidecar
  else do
    match ← readCompatibleRecord network sidecar with
    | none => return sidecar
    | some record =>
      let checked := childIndices.foldl
        (fun checked childIndex => insertKey childIndex nextStartHeight checked)
        (collect record.utxoCheckedHeights)
      let record := { record with utxoCheckedHeights := checked }
      return writeRecord (match nextSweepOffset with
        | some offset =>
          { record with utxoSweepNextOffset := offset, lastExternalSweepAt := some nowSeconds }
        | none => record)

def writeCleanAddresses (addresses : List CachedExternalAddress) (scannedHeight : Option ℕ)
    (sidecar : Sidecar) : Except String Sidecar := do
  let existing ← readCompatibleRecord network sidecar
  let record := existing.getD (emptyRecord network scannedHeight)
  return writeRecord { record with
    utxoCheckedHeights := preservedUtxoCheckedHeights record (allExternalAddresses addresses)
    externalAddresses := projectedExternalAddresses addresses
    dirty := false
    refreshedScannedHeight := scannedHeight }

def getCleanAddress (sidecar : Sidecar) : Except String (Option String) := do
  match ← cleanRecord network sidecar with
  | none => return none
  | some record => return firstUnusedExternalTransparentAddress record.externalAddresses

def markAccountDirty : Sidecar → Except String Sidecar
  | .missing => .ok .missing
  | .record encoded =>
    .ok (writeRecord { retireLegacyCompletion encoded.decode with dirty := true })
  | .malformed error => .error s!"transparent receive cache decode: {error}"

/-! ## Other addresses -/

def planInternalUtxoRefresh (addresses : List (ℕ × String)) (recentLimit sweepLimit : ℕ)
    (sidecar : Sidecar) : Except String (List TransparentUtxoRefreshBatch) := do
  let existing ← readCompatibleRecord network sidecar
  let record := existing.getD (emptyRecord network none)
  let checked := addresses.filterMap fun (index, address) =>
    (record.nonExternalCheckedHeights.lookup address).map fun height => (index, height)
  let addresses := addresses.map fun (index, address) =>
    (⟨index, address, false⟩ : CachedExternalAddress)
  return externalUtxoRefreshBatches addresses checked record.internalSweepNextOffset 0 0 recentLimit
    sweepLimit

/-- `saturating_add` on `u64` -/
def saturatingAdd (a b : ℕ) : ℕ := min (a + b) (2 ^ 64 - 1)

/-- The checked internal addresses are refreshed together, when the oldest is due. -/
def internalDue (checkedHeights : List (String × ℕ)) (addresses internalAddresses : List String)
    (tip : ℕ) : Bool :=
  (((addresses.filter (· ∈ internalAddresses)).filterMap (checkedHeights.lookup ·)).min?).any
    fun height => internalUtxoRefreshInterval ≤ saturatingAdd tip 1 - height

def planNonExternalUtxoRefresh (addresses : List String) (birthday safety : ℕ)
    (internalAddresses : List String) (tip : ℕ) (sidecar : Sidecar) :
    Except String (List (List String × ℕ) × Sidecar) := do
  let existing ← readCompatibleRecord network sidecar
  let record := existing.getD (emptyRecord network none)
  let record := { record with
    nonExternalCheckedHeights := record.nonExternalCheckedHeights.filter fun entry =>
      entry.1 ∈ addresses }
  let sidecar := if existing ≠ some record then writeRecord record else sidecar
  let due := internalDue record.nonExternalCheckedHeights addresses internalAddresses tip
  let unchecked := addresses.filter fun address =>
    (record.nonExternalCheckedHeights.lookup address).isNone
  let checked := addresses.filter fun address =>
    (record.nonExternalCheckedHeights.lookup address).isSome ∧
      (address ∉ internalAddresses ∨ due)
  let groups := [unchecked.insertionSort (· ≤ ·), checked.insertionSort (· ≤ ·)].filter (· ≠ [])
  return (groups.map fun group => (group, ((group.map fun address =>
    startHeightOf birthday safety (record.nonExternalCheckedHeights.lookup address)).min?).getD 0),
    sidecar)

def markNonExternalUtxoRefreshCompleteWithSweep (addresses : List String) (nextStartHeight : ℕ)
    (nextSweepOffset : Option ℕ) (nowSeconds : ℕ) (sidecar : Sidecar) : Except String Sidecar := do
  match ← readCompatibleRecord network sidecar with
  | none => return sidecar
  | some record =>
    let record := { record with
      nonExternalCheckedHeights := addresses.foldl
        (fun checked address => insertKey address nextStartHeight checked)
        record.nonExternalCheckedHeights }
    return writeRecord (match nextSweepOffset with
      | some offset =>
        { record with internalSweepNextOffset := offset, lastInternalSweepAt := some nowSeconds }
      | none => record)

def markNonExternalUtxoRefreshComplete (addresses : List String) (nextStartHeight nowSeconds : ℕ)
    (sidecar : Sidecar) : Except String Sidecar :=
  markNonExternalUtxoRefreshCompleteWithSweep network addresses nextStartHeight none nowSeconds
    sidecar

end Operations

/-- One account of the wallet. -/
def invalidateUtxoChecks (sidecar : Sidecar) : Except String Sidecar := do
  match ← readRecord sidecar with
  | none => return sidecar
  | some record => return writeRecord record.clearChecks

end VizorWallet.Receive
