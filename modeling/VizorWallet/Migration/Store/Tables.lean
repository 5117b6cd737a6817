import VizorWallet.Migration.Reorg.Reconcile

/-!
# The tables of a migration run

The rows that a run has in the migration tables, and the policies that the operations on them read.

## Main definitions

* `PendingTx` — a row of the pending-transaction table.
* `SignedChild` — a row of the table of signed children.
* `Run` — a run with its rows.
* `zip318CanonicalMigrationExpiryHeight` — the expiry that belongs to a broadcast height.
-/

namespace VizorWallet.Migration.Store

open Reorg (Txid PreparedNote Stage PreparationTimingPolicy)

/-- A transaction output. -/
abbrev Outpoint := Txid × ℕ

inductive PendingStatus where
  | scheduled
  | broadcasted
  | confirmed
  | needsResign
  deriving DecidableEq

structure PendingTx where
  txid : Txid
  partIndex : Option ℕ
  encryptedRawTx : String
  targetHeight : ℕ
  anchorBoundaryHeight : Option ℕ
  expiryHeight : ℕ
  value : ℕ
  fee : ℕ
  selectedNote : Outpoint
  scheduleStartHeight : Option ℕ
  scheduledHeight : Option ℕ
  rebuildBlockOffset : Option ℕ
  broadcastAttempted : BroadcastAttempt
  status : PendingStatus
  deriving DecidableEq

structure SignedChild where
  messageId : String
  childIndex : ℕ
  targetHeight : ℕ
  expiryHeight : ℕ
  scheduledHeight : Option ℕ
  value : ℕ
  selectedNote : Outpoint
  deriving DecidableEq

structure MigrationScheduleEntry where
  partIndex : Option ℕ
  value : ℕ
  blockOffset : ℕ
  deriving DecidableEq

inductive WalletNetwork where
  | main
  | test
  | regtest
  deriving DecidableEq

inductive MigrationTimingPolicy where
  | standard
  | standard90Minutes
  | standard90MinutesLatestAnchor
  | fastTestnet
  deriving DecidableEq

structure Run where
  runId : String
  accountUuid : String
  network : WalletNetwork
  phase : Phase
  targetValues : List ℕ
  schedule : List MigrationScheduleEntry
  timingPolicy : MigrationTimingPolicy
  preparationTimingPolicy : PreparationTimingPolicy
  proofRetryHeight : Option ℕ
  signedScheduleOriginHeight : Option ℕ
  initialScheduleRebasedOriginHeight : Option ℕ
  recoveryScheduleOriginHeight : Option ℕ
  recoveryScheduleMaxBlockOffset : Option ℕ
  stages : List Stage
  pending : List PendingTx
  signedChildren : List SignedChild
  preparedNotes : List PreparedNote
  deriving DecidableEq

/-! ## Expiry heights -/

def zip318ExpiryModulus : ℕ := 34560

def zip318CanonicalMigrationExpiryHeight (scheduledHeight : ℕ) : Except String ℕ := do
  let boundary := scheduledHeight - scheduledHeight % zip318ExpiryModulus
  let window := zip318ExpiryModulus * 2
  ensure (boundary + window < 2 ^ 32) "ZIP 318 canonical expiry height overflow"
  return boundary + window

/-- The expiry belongs to the height. -/
abbrev Canonical (scheduledHeight expiryHeight : ℕ) : Prop :=
  zip318CanonicalMigrationExpiryHeight scheduledHeight = .ok expiryHeight

instance lawfulBEqHeight : LawfulBEq (Option ℕ) := inferInstance

instance decidableEqOutcome : DecidableEq (Except String ℕ) := fun a b =>
  match a, b with
  | .ok a, .ok b => decidable_of_iff (a = b) ⟨congrArg _, Except.ok.inj⟩
  | .error a, .error b => decidable_of_iff (a = b) ⟨congrArg _, Except.error.inj⟩
  | .ok _, .error _ => isFalse nofun
  | .error _, .ok _ => isFalse nofun

theorem canonical_iff {scheduledHeight expiryHeight : ℕ} :
    Canonical scheduledHeight expiryHeight ↔
      expiryHeight = scheduledHeight - scheduledHeight % 34560 + 69120 ∧ expiryHeight < 2 ^ 32 := by
  simp only [Canonical, zip318CanonicalMigrationExpiryHeight, bind_eq_ok, ensure_eq_ok,
    exists_const, pure_eq_ok]
  unfold zip318ExpiryModulus
  omega

/-- A canonical expiry lies above its height. -/
theorem Canonical.lt {scheduledHeight expiryHeight : ℕ}
    (h : Canonical scheduledHeight expiryHeight) :
    scheduledHeight < expiryHeight := by
  have := (canonical_iff.1 h).1
  omega

/-! ## Timing -/

/-- `schedule_parameters_with_policy`: the mean and the largest delay. -/
def scheduleParametersWithPolicy : WalletNetwork → MigrationTimingPolicy → ℕ × ℕ
  | .regtest, .fastTestnet => (12, 48)
  | .regtest, _ => (1, 4)
  | .test, .fastTestnet => (12, 48)
  | .main, .standard90Minutes | .main, .standard90MinutesLatestAnchor
  | .test, .standard90Minutes | .test, .standard90MinutesLatestAnchor => (66, 576)
  | .main, _ | .test, _ => (144, 576)

/-! ## Rows of a run -/

/-- A row is overdue when its broadcast height is reached. -/
def PendingTx.dueAt (row : PendingTx) (height : ℕ) : Bool := row.scheduledHeight.any (· ≤ height)

/-- `UPDATE .. SET .. WHERE ..` on the pending-transaction table. -/
def updateWhere (condition : PendingTx → Bool) (update : PendingTx → PendingTx)
    (rows : List PendingTx) : List PendingTx :=
  rows.map fun row => if condition row then update row else row

def countForRun (run : Run) : ℕ := run.pending.length

def countPendingWithStatus (run : Run) (status : PendingStatus) : ℕ :=
  run.pending.countP (·.status = status)

def plannedPartCount (run : Run) : ℕ := run.targetValues.length

/-- The notes of the signed children that no pending transaction spends. -/
def unpromotedSignedChildNoteOutpoints (run : Run) : List Outpoint :=
  (run.signedChildren.map SignedChild.selectedNote).filter fun outpoint =>
    outpoint ∉ run.pending.map PendingTx.selectedNote

def unpromotedSignedChildPcztCount (run : Run) : ℕ :=
  (unpromotedSignedChildNoteOutpoints run).length

/-- The keys of the pending-transaction table. -/
structure Keyed (rows : List PendingTx) : Prop where
  txids : (rows.map PendingTx.txid).Nodup
  parts : (rows.filterMap PendingTx.partIndex).Nodup

abbrev Run.Keyed (run : Run) : Prop := Store.Keyed run.pending

variable {rows : List PendingTx} {condition : PendingTx → Bool} {update : PendingTx → PendingTx}

theorem mem_updateWhere {row : PendingTx} : row ∈ updateWhere condition update rows ↔
    ∃ old ∈ rows, row = if condition old then update old else old := by
  simp only [updateWhere, List.mem_map, eq_comm]

/-- A column that the update does not set. -/
theorem map_updateWhere {α : Type*} {column : PendingTx → α}
    (h : ∀ row, column (update row) = column row) :
    (updateWhere condition update rows).map column = rows.map column := by
  rw [updateWhere, List.map_map]
  refine List.map_congr_left fun row _ => ?_
  rw [Function.comp_apply]
  split_ifs
  · exact h row
  · rfl

/-- The key columns determine whether a table is keyed. -/
theorem Keyed.of_columns {rows' : List PendingTx} (h : Keyed rows)
    (htxids : rows'.map PendingTx.txid = rows.map PendingTx.txid)
    (hparts : rows'.map PendingTx.partIndex = rows.map PendingTx.partIndex) : Keyed rows' := by
  refine ⟨htxids ▸ h.txids, ?_⟩
  have hcolumn (l : List PendingTx) :
      l.filterMap PendingTx.partIndex = (l.map PendingTx.partIndex).filterMap id := by
    rw [List.filterMap_map]
    rfl
  rw [hcolumn, hparts, ← hcolumn]
  exact h.parts

theorem Keyed.sublist {rows' : List PendingTx} (h : Keyed rows) (hrows : rows'.Sublist rows) :
    Keyed rows' :=
  ⟨h.txids.sublist (hrows.map _), h.parts.sublist (hrows.filterMap _)⟩

theorem Keyed.updateWhere (h : Keyed rows) (htxid : ∀ row, (update row).txid = row.txid)
    (hpart : ∀ row, (update row).partIndex = row.partIndex) :
    Keyed (updateWhere condition update rows) :=
  h.of_columns (map_updateWhere htxid) (map_updateWhere hpart)

/-- The row that a key finds is the only one with that key. -/
theorem Keyed.eq_of_find {row row' : PendingTx} {txid : Txid} (h : Keyed rows)
    (hfind : rows.find? (·.txid = txid) = some row) (hrow' : row' ∈ rows)
    (htxid : row'.txid = txid) : row' = row := by
  have hrow : row.txid = txid := by simpa using List.find?_some hfind
  exact List.inj_on_of_nodup_map h.txids hrow' (List.mem_of_find?_eq_some hfind)
    (htxid.trans hrow.symm)

end VizorWallet.Migration.Store
