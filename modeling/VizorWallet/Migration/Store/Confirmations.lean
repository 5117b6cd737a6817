import VizorWallet.Migration.Store.Tables

/-!
# Confirmation tracking and completion of a run

## Main definitions

* `reconcileRunConfirmations` — one pass over the rows of a run.
* `Tracked` — the tables after a pass.

## Main results

* `tracked_iff` — a pass tracks every row when no row that waits for re-signing is on the chain.
-/

namespace VizorWallet.Migration.Store

open Reorg (Txid ChainSnapshot PreparedNote)

/-- What the wallet has scanned: the inclusions, the transactions whose bytes it has, the depth
below a height, and the depth that the confirmation policy asks for. -/
structure ScannedChain where
  identity : ChainSnapshot
  localTransactionRaw : Txid → Bool
  syncedOrchardConfirmationCount : ℕ → ℕ
  denominationConfirmationsRequired : ℕ

/-- The transaction is included at the required depth. -/
def ScannedChain.trusts (chain : ScannedChain) (txid : Txid) : Bool :=
  (chain.identity txid).any fun identity =>
    chain.denominationConfirmationsRequired ≤
      chain.syncedOrchardConfirmationCount identity.minedHeight

/-- Track one row; a mined row that left the chain becomes broadcastable again. -/
def PendingTx.reconcile (chain : ScannedChain) (row : PendingTx) : PendingTx :=
  match row.status, chain.identity row.txid with
  | .scheduled, some _ | .broadcasted, some _ => { row with status := .confirmed }
  | .confirmed, none =>
    { row with
      status := .scheduled
      scheduleStartHeight := some row.targetHeight
      scheduledHeight := some row.targetHeight }
  | _, _ => row

/-- The row is demoted. -/
def PendingTx.reorged (chain : ScannedChain) (row : PendingTx) : Bool :=
  row.status = .confirmed ∧ (chain.identity row.txid).isNone

/-- The rows, and the phase when one of them was demoted. -/
def reconcileRows (chain : ScannedChain) (run : Run) : Run :=
  if run.phase.releasesWalletLocks then run
  else
    { run with
      pending := run.pending.map (PendingTx.reconcile chain)
      phase := if run.pending.any (PendingTx.reorged chain) then .broadcastScheduled
        else run.phase }

/-- `UPDATE .. SET phase = 'broadcast_scheduled' WHERE phase = 'waiting_migration_confirmations'` -/
def resumeMaterialization (run : Run) : Run :=
  { run with
    phase := if run.phase = .waitingMigrationConfirmations then .broadcastScheduled else run.phase }

/-- Complete the run and release what it holds. -/
def completeRun (run : Run) : Run :=
  if run.phase.releasesWalletLocks then run
  else
    { run with
      phase := .complete
      preparedNotes := run.preparedNotes.map fun note => { note with lockState := .unlocked }
      signedChildren := [] }

/-- The phase of a run whose rows are tracked. -/
def settleRun (chain : ScannedChain) (run : Run) : Run :=
  let unpromotedCount := unpromotedSignedChildPcztCount run
  let resumed := if run.phase = .waitingMigrationConfirmations ∧ 0 < unpromotedCount then
    resumeMaterialization run else run
  let totalCount := countForRun run
  let confirmedCount := countPendingWithStatus run .confirmed
  if 0 < totalCount ∧ totalCount ≤ confirmedCount then
    let plannedCount := plannedPartCount run
    if plannedCount = 0 ∨ totalCount ≠ plannedCount ∨ 0 < unpromotedCount then
      if run.phase = .waitingMigrationConfirmations then resumeMaterialization resumed else resumed
    else if run.pending.all fun row => chain.trusts row.txid then completeRun resumed
    else resumed
  else resumed

def reconcileRunConfirmations (chain : ScannedChain) (run : Run) : Run :=
  settleRun chain (reconcileRows chain run)

variable {chain : ScannedChain} {run : Run}

/-! ## Rows -/

@[simp] theorem reconcile_txid (row : PendingTx) : (row.reconcile chain).txid = row.txid := by
  unfold PendingTx.reconcile
  split <;> rfl

@[simp] theorem reconcile_partIndex (row : PendingTx) :
    (row.reconcile chain).partIndex = row.partIndex := by
  unfold PendingTx.reconcile
  split <;> rfl

@[simp] theorem reconcile_selectedNote (row : PendingTx) :
    (row.reconcile chain).selectedNote = row.selectedNote := by
  unfold PendingTx.reconcile
  split <;> rfl

/-- A tracked row is confirmed when it is on the chain and does not wait for a signature. -/
theorem reconcile_confirmed (row : PendingTx) : (row.reconcile chain).status = .confirmed ↔
    (chain.identity row.txid).isSome ∧ row.status ≠ .needsResign := by
  unfold PendingTx.reconcile
  cases hstatus : row.status <;> cases hchain : chain.identity row.txid <;>
    simp [hstatus]

theorem reconcile_needsResign (row : PendingTx) :
    (row.reconcile chain).status = .needsResign ↔ row.status = .needsResign := by
  unfold PendingTx.reconcile
  cases hstatus : row.status <;> cases hchain : chain.identity row.txid <;>
    simp [hstatus]

/-- A row is tracked once. -/
theorem reconcile_idem (row : PendingTx) :
    (row.reconcile chain).reconcile chain = row.reconcile chain := by
  cases hstatus : row.status <;> cases hchain : chain.identity row.txid <;>
    simp [PendingTx.reconcile, hstatus, hchain]

theorem reorged_reconcile (row : PendingTx) : (row.reconcile chain).reorged chain = false := by
  simp only [PendingTx.reorged, reconcile_confirmed, reconcile_txid, decide_eq_false_iff_not,
    not_and, Option.isNone_iff_eq_none]
  rintro ⟨hsome, -⟩ hnone
  rw [hnone] at hsome
  cases hsome

/-! ## The phase -/

/-- The rows are not the planned parts, or signed children are left. -/
def Unmaterialized (run : Run) : Prop :=
  0 < unpromotedSignedChildPcztCount run ∨
    0 < countForRun run ∧ countForRun run ≤ countPendingWithStatus run .confirmed ∧
      (plannedPartCount run = 0 ∨ countForRun run ≠ plannedPartCount run)

/-- The rows are the planned parts, all confirmed at the required depth, and no signed child is
left. -/
structure Settled (chain : ScannedChain) (run : Run) : Prop where
  planned : 0 < plannedPartCount run
  count : countForRun run = plannedPartCount run
  confirmed : ∀ row ∈ run.pending, row.status = .confirmed
  trusted : ∀ row ∈ run.pending, chain.trusts row.txid
  promoted : unpromotedSignedChildPcztCount run = 0

/-- All rows of a run are confirmed. -/
theorem countPendingWithStatus_confirmed :
    countForRun run ≤ countPendingWithStatus run .confirmed ↔
      ∀ row ∈ run.pending, row.status = .confirmed := by
  have hle : countPendingWithStatus run .confirmed ≤ countForRun run := List.countP_le_length
  have hall : countPendingWithStatus run .confirmed = countForRun run ↔
      ∀ row ∈ run.pending, row.status = .confirmed := by
    rw [countPendingWithStatus, countForRun, List.countP_eq_length]
    simp only [decide_eq_true_eq]
  rw [← hall]
  omega

/-- A settled run is completed. -/
theorem settleRun_settled (h : Settled chain run) : settleRun chain run = completeRun run := by
  have hconfirmed := countPendingWithStatus_confirmed.2 h.confirmed
  have htrusted : run.pending.all fun row => chain.trusts row.txid :=
    List.all_eq_true.2 h.trusted
  have hplanned := h.planned
  have hcount := h.count
  have hpromoted := h.promoted
  have houter : 0 < countForRun run ∧ countForRun run ≤ countPendingWithStatus run .confirmed :=
    ⟨by omega, hconfirmed⟩
  have hmaterialized : ¬ (plannedPartCount run = 0 ∨ countForRun run ≠ plannedPartCount run ∨
      0 < unpromotedSignedChildPcztCount run) := by omega
  have hresumed : ¬ (run.phase = .waitingMigrationConfirmations ∧
      0 < unpromotedSignedChildPcztCount run) := by omega
  rw [settleRun, if_neg hresumed]
  dsimp only
  rw [if_pos houter, if_neg hmaterialized, if_pos htrusted]

/-- The phase of a run that is not settled. -/
def resumedPhase (run : Run) [Decidable (Unmaterialized run)] : Phase :=
  if run.phase = .waitingMigrationConfirmations ∧ Unmaterialized run then .broadcastScheduled
  else run.phase

instance (run : Run) : Decidable (Unmaterialized run) := inferInstanceAs (Decidable (_ ∨ _))

/-- A run that is not settled stays open. -/
theorem settleRun_open (h : ¬ Settled chain run) :
    settleRun chain run = { run with phase := resumedPhase run } := by
  have hopen : 0 < countForRun run ∧ countForRun run ≤ countPendingWithStatus run .confirmed →
      ¬ (plannedPartCount run = 0 ∨ countForRun run ≠ plannedPartCount run ∨
        0 < unpromotedSignedChildPcztCount run) →
      ¬ (run.pending.all fun row => chain.trusts row.txid) := by
    intro ⟨htotal, hconfirmed⟩ hmaterialized htrusted
    exact h ⟨by omega, by omega, countPendingWithStatus_confirmed.1 hconfirmed,
      List.all_eq_true.1 htrusted, by omega⟩
  by_cases hwaiting : run.phase = .waitingMigrationConfirmations
  · have hresume : resumeMaterialization run = { run with phase := .broadcastScheduled } := by
      rw [resumeMaterialization, if_pos hwaiting]
    have htwice :
        resumeMaterialization (resumeMaterialization run) = resumeMaterialization run := by
      rw [hresume]
      rfl
    by_cases hunmaterialized : Unmaterialized run
    · rw [resumedPhase, if_pos ⟨hwaiting, hunmaterialized⟩, ← hresume, settleRun]
      simp only [hwaiting, true_and, if_true]
      obtain hpromoted | ⟨htotal, hconfirmed, hplan⟩ := hunmaterialized
      · simp only [hpromoted, or_true, if_true, htwice, ite_self]
      · have hmaterialized : plannedPartCount run = 0 ∨ countForRun run ≠ plannedPartCount run ∨
            0 < unpromotedSignedChildPcztCount run := hplan.imp_right .inl
        simp only [htotal, hconfirmed, hmaterialized, and_self, if_true]
        split_ifs
        · exact htwice
        · rfl
    · simp only [Unmaterialized, not_or, not_and] at hunmaterialized
      obtain ⟨hpromoted, hplan⟩ := hunmaterialized
      have hmaterialized : ¬ (run.phase = .waitingMigrationConfirmations ∧ Unmaterialized run) := by
        rintro ⟨-, hpromoted' | ⟨htotal, hconfirmed, hplan'⟩⟩
        · exact hpromoted hpromoted'
        · obtain ⟨hpositive, hequal⟩ := hplan htotal hconfirmed
          exact hplan'.elim hpositive hequal
      rw [resumedPhase, if_neg hmaterialized, settleRun]
      simp only [hpromoted, and_false, or_false, if_false]
      split_ifs with houter hmat htrusted
      · obtain ⟨hpositive, hequal⟩ := hplan houter.1 houter.2
        exact (hmat.elim hpositive hequal).elim
      · exact absurd htrusted (hopen houter (by omega))
      · rfl
      · rfl
  · have hmaterialized : ¬ (run.phase = .waitingMigrationConfirmations ∧ Unmaterialized run) :=
      fun hboth => hwaiting hboth.1
    rw [resumedPhase, if_neg hmaterialized, settleRun]
    simp only [hwaiting, false_and, if_false]
    split_ifs with houter hmat htrusted
    · rfl
    · exact absurd htrusted (hopen houter hmat)
    · rfl
    · rfl

/-! ## The pass -/

theorem reconcileRows_eq (hphase : run.phase.releasesWalletLocks = false) :
    reconcileRows chain run =
      { run with
        pending := run.pending.map (PendingTx.reconcile chain)
        phase := if run.pending.any (PendingTx.reorged chain) then .broadcastScheduled
          else run.phase } := by
  simp [reconcileRows, hphase]

theorem reconcileRows_phase (hphase : run.phase.releasesWalletLocks = false) :
    (reconcileRows chain run).phase.releasesWalletLocks = false := by
  rw [reconcileRows_eq hphase]
  dsimp only
  split_ifs
  · rfl
  · exact hphase

theorem unpromoted_reconcileRows :
    unpromotedSignedChildNoteOutpoints (reconcileRows chain run) =
      unpromotedSignedChildNoteOutpoints run := by
  have hnotes : PendingTx.selectedNote ∘ PendingTx.reconcile chain = PendingTx.selectedNote :=
    funext reconcile_selectedNote
  by_cases hphase : run.phase.releasesWalletLocks
  · rw [reconcileRows, if_pos hphase]
  · rw [reconcileRows, if_neg hphase]
    simp only [unpromotedSignedChildNoteOutpoints, List.map_map, hnotes]

/-- Rows that are tracked already. -/
theorem reconcileRows_fixed (h : ∀ row ∈ run.pending, row.reconcile chain = row) :
    reconcileRows chain run = run := by
  have hreorged : run.pending.any (PendingTx.reorged chain) = false := by
    rw [List.any_eq_false]
    intro row hrow
    rw [← h row hrow, reorged_reconcile]
    exact Bool.false_ne_true
  have hrows : run.pending.map (PendingTx.reconcile chain) = run.pending :=
    (List.map_congr_left h).trans run.pending.map_id
  by_cases hphase : run.phase.releasesWalletLocks
  · rw [reconcileRows, if_pos hphase]
  · rw [reconcileRows, if_neg hphase, hrows, hreorged]
    rfl

/-- The rows are the planned parts, each included at the required depth, and no signed child is
left. -/
structure Completes (chain : ScannedChain) (run : Run) : Prop where
  planned : 0 < plannedPartCount run
  count : countForRun run = plannedPartCount run
  parts : (run.pending.filterMap PendingTx.partIndex).Nodup
  trusted : ∀ row ∈ run.pending, chain.trusts row.txid
  promoted : unpromotedSignedChildNoteOutpoints run = []

/-- The tables of a run after a pass. -/
structure Tracked (chain : ScannedChain) (run run' : Run) : Prop where
  txids : run'.pending.map PendingTx.txid = run.pending.map PendingTx.txid
  confirmed : ∀ row ∈ run'.pending, row.status = .confirmed ↔ (chain.identity row.txid).isSome
  complete : run'.phase = .complete ↔ Completes chain run
  unlocked : run'.phase = .complete → ∀ note ∈ run'.preparedNotes, note.lockState = .unlocked
  deleted : run'.phase = .complete → run'.signedChildren = []
  repeated : reconcileRunConfirmations chain run' = run'

theorem trusts_isSome {txid : Txid} (h : chain.trusts txid) : (chain.identity txid).isSome := by
  rw [ScannedChain.trusts, Option.any_eq_true] at h
  obtain ⟨identity, hidentity, -⟩ := h
  simp [hidentity]

theorem settled_reconcileRows (hphase : run.phase.releasesWalletLocks = false)
    (hkeyed : run.Keyed)
    (h : ∀ row ∈ run.pending, row.status = .needsResign → chain.identity row.txid = none) :
    Settled chain (reconcileRows chain run) ↔ Completes chain run := by
  have hpromoted : unpromotedSignedChildPcztCount (reconcileRows chain run) = 0 ↔
      unpromotedSignedChildNoteOutpoints run = [] := by
    rw [unpromotedSignedChildPcztCount, unpromoted_reconcileRows, List.length_eq_zero_iff]
  have hrows := @reconcileRows_eq chain run hphase
  have hcount : countForRun (reconcileRows chain run) = countForRun run := by
    rw [hrows]
    exact List.length_map _
  have hplanned : plannedPartCount (reconcileRows chain run) = plannedPartCount run := by
    rw [hrows]
    rfl
  have htrusted : (∀ row ∈ (reconcileRows chain run).pending, chain.trusts row.txid) ↔
      ∀ row ∈ run.pending, chain.trusts row.txid := by
    rw [hrows]
    simp only [List.forall_mem_map, reconcile_txid]
  constructor
  · intro hsettled
    exact ⟨hplanned ▸ hsettled.planned, hcount ▸ hplanned ▸ hsettled.count, hkeyed.parts,
      htrusted.1 hsettled.trusted, hpromoted.1 hsettled.promoted⟩
  · intro hcompletes
    refine ⟨hplanned ▸ hcompletes.planned, (hcount.trans hcompletes.count).trans hplanned.symm, ?_,
      htrusted.2 hcompletes.trusted, hpromoted.2 hcompletes.promoted⟩
    rw [hrows]
    refine List.forall_mem_map.2 fun row hrow => (reconcile_confirmed row).2 ?_
    have hsome := trusts_isSome (hcompletes.trusted row hrow)
    refine ⟨hsome, fun hstatus => ?_⟩
    rw [h row hrow hstatus] at hsome
    cases hsome

theorem resumedPhase_open (hphase : run.phase.releasesWalletLocks = false) :
    (resumedPhase run).releasesWalletLocks = false := by
  unfold resumedPhase
  split_ifs
  · rfl
  · exact hphase

/-- A settled run stays complete. -/
theorem repeated_settled (hrows : ∀ row ∈ run.pending, row.reconcile chain = row)
    (h : Settled chain run) :
    reconcileRunConfirmations chain (completeRun run) = completeRun run := by
  by_cases hphase : run.phase.releasesWalletLocks
  · have hsame : completeRun run = run := if_pos hphase
    rw [hsame, reconcileRunConfirmations, reconcileRows_fixed hrows, settleRun_settled h, hsame]
  · have hcomplete : completeRun run = { run with
        phase := .complete
        preparedNotes := run.preparedNotes.map fun note => { note with lockState := .unlocked }
        signedChildren := [] } := if_neg hphase
    have hsettled : Settled chain (completeRun run) := by
      rw [hcomplete]
      exact ⟨h.planned, h.count, h.confirmed, h.trusted, rfl⟩
    rw [reconcileRunConfirmations, reconcileRows_fixed (by rw [hcomplete]; exact hrows),
      settleRun_settled hsettled, completeRun, if_pos (by rw [hcomplete]; rfl)]

/-- A run that stays open is not resumed twice. -/
theorem repeated_open (hrows : ∀ row ∈ run.pending, row.reconcile chain = row)
    (h : ¬ Settled chain run) :
    reconcileRunConfirmations chain { run with phase := resumedPhase run } =
      { run with phase := resumedPhase run } := by
  have hopen : ¬ Settled chain { run with phase := resumedPhase run } := fun hsettled =>
    h ⟨hsettled.planned, hsettled.count, hsettled.confirmed, hsettled.trusted, hsettled.promoted⟩
  have hphase : resumedPhase { run with phase := resumedPhase run } = resumedPhase run := by
    refine if_neg ?_
    rintro ⟨hwaiting, hunmaterialized⟩
    have hresumed : resumedPhase run = .waitingMigrationConfirmations := hwaiting
    unfold resumedPhase at hresumed
    split_ifs at hresumed with hnot
    exact hnot ⟨hresumed, hunmaterialized⟩
  have hfixed : reconcileRows chain { run with phase := resumedPhase run } =
      { run with phase := resumedPhase run } := reconcileRows_fixed hrows
  rw [reconcileRunConfirmations, hfixed, settleRun_open hopen, hphase]

/-- What a pass makes of a run that has not ended. -/
theorem reconcileRunConfirmations_cases (hphase : run.phase.releasesWalletLocks = false) :
    Settled chain (reconcileRows chain run) ∧
      reconcileRunConfirmations chain run = { reconcileRows chain run with
        phase := .complete
        preparedNotes := run.preparedNotes.map fun note => { note with lockState := .unlocked }
        signedChildren := [] } ∨
    ¬ Settled chain (reconcileRows chain run) ∧
      ∃ phase,
        reconcileRunConfirmations chain run = { reconcileRows chain run with phase := phase } ∧
        phase.releasesWalletLocks = false := by
  have hphase' := @reconcileRows_phase chain run hphase
  by_cases hsettled : Settled chain (reconcileRows chain run)
  · refine .inl ⟨hsettled, ?_⟩
    rw [reconcileRunConfirmations, settleRun_settled hsettled, completeRun,
      if_neg (by simp [hphase']), reconcileRows_eq hphase]
  · exact .inr ⟨hsettled, _, settleRun_open hsettled, resumedPhase_open hphase'⟩

/-- A pass has no further effect when it is repeated. -/
theorem reconcileRunConfirmations_idem (hphase : run.phase.releasesWalletLocks = false) :
    reconcileRunConfirmations chain (reconcileRunConfirmations chain run) =
      reconcileRunConfirmations chain run := by
  have hfixed : ∀ row ∈ (reconcileRows chain run).pending, row.reconcile chain = row := by
    rw [reconcileRows_eq hphase]
    exact List.forall_mem_map.2 fun row _ => reconcile_idem row
  by_cases hsettled : Settled chain (reconcileRows chain run)
  · have hcompleted : reconcileRunConfirmations chain run = completeRun (reconcileRows chain run) :=
      settleRun_settled hsettled
    rw [hcompleted]
    exact repeated_settled hfixed hsettled
  · have hopen : reconcileRunConfirmations chain run = _ := settleRun_open hsettled
    rw [hopen]
    exact repeated_open hfixed hsettled

/-- A pass tracks every row, completes exactly the runs that are done and changes nothing when it
is repeated, unless a row that waits for re-signing is on the chain. -/
theorem tracked_iff (hphase : run.phase.releasesWalletLocks = false) (hkeyed : run.Keyed) :
    Tracked chain run (reconcileRunConfirmations chain run) ↔
      ∀ row ∈ run.pending, row.status = .needsResign → chain.identity row.txid = none := by
  have hrepeated := @reconcileRunConfirmations_idem chain run hphase
  have hpending : (reconcileRunConfirmations chain run).pending =
      run.pending.map (PendingTx.reconcile chain) := by
    obtain ⟨-, hresult⟩ | ⟨-, phase, hresult, -⟩ :=
      @reconcileRunConfirmations_cases chain run hphase
    all_goals rw [hresult, reconcileRows_eq hphase]
  constructor
  · intro htracked row hrow hstatus
    have hmem : row.reconcile chain ∈ (reconcileRunConfirmations chain run).pending :=
      hpending ▸ List.mem_map_of_mem hrow
    rw [← Option.not_isSome_iff_eq_none, ← reconcile_txid row,
      ← htracked.confirmed _ hmem, (reconcile_needsResign row).2 hstatus]
    exact PendingStatus.noConfusion
  · intro h
    have hcompletes := settled_reconcileRows hphase hkeyed h
    have htxids : (reconcileRunConfirmations chain run).pending.map PendingTx.txid =
        run.pending.map PendingTx.txid := by
      rw [hpending, List.map_map]
      exact List.map_congr_left fun row _ => reconcile_txid row
    have hconfirmed : ∀ row ∈ (reconcileRunConfirmations chain run).pending,
        row.status = .confirmed ↔ (chain.identity row.txid).isSome := by
      rw [hpending]
      refine List.forall_mem_map.2 fun row hrow => ?_
      rw [reconcile_confirmed, reconcile_txid, and_iff_left_iff_imp]
      rintro hsome hstatus
      rw [h row hrow hstatus] at hsome
      cases hsome
    obtain ⟨hsettled, hresult⟩ | ⟨hsettled, phase, hresult, hopen⟩ :=
      @reconcileRunConfirmations_cases chain run hphase
    · refine ⟨htxids, hconfirmed, ?_, fun _ => ?_, fun _ => ?_, hrepeated⟩
      · exact iff_of_true (by rw [hresult]) (hcompletes.1 hsettled)
      · rw [hresult]
        exact List.forall_mem_map.2 fun _ _ => rfl
      · rw [hresult]
    · have hnot : (reconcileRunConfirmations chain run).phase ≠ .complete := by
        rw [hresult]
        rintro rfl
        cases hopen
      exact ⟨htxids, hconfirmed, iff_of_false hnot (mt hcompletes.2 hsettled),
        fun hcomplete => absurd hcomplete hnot, fun hcomplete => absurd hcomplete hnot, hrepeated⟩

/-- A part of a sample run. -/
def samplePart (txid : Txid) (partIndex : ℕ) (status : PendingStatus) : PendingTx where
  txid := txid
  partIndex := some partIndex
  encryptedRawTx := "raw"
  targetHeight := 34550
  anchorBoundaryHeight := some 34500
  expiryHeight := 103680
  value := 100
  fee := 10
  selectedNote := ("aa", partIndex)
  scheduleStartHeight := some 34549
  scheduledHeight := some 34570
  rebuildBlockOffset := none
  broadcastAttempted := .attempted
  status := status

/-- A run of two parts. -/
def sampleRun (status : PendingStatus) : Run where
  runId := "run"
  accountUuid := "account"
  network := .main
  phase := .waitingMigrationConfirmations
  targetValues := [100, 100]
  schedule := [⟨some 0, 100, 21⟩, ⟨some 1, 100, 21⟩]
  timingPolicy := .standard
  preparationTimingPolicy := .immediate
  proofRetryHeight := none
  signedScheduleOriginHeight := some 34549
  initialScheduleRebasedOriginHeight := none
  recoveryScheduleOriginHeight := none
  recoveryScheduleMaxBlockOffset := none
  stages := []
  pending := [samplePart "c0" 0 .broadcasted, samplePart "c1" 1 status]
  signedChildren := []
  preparedNotes := [⟨"aa", 0, some "f0", .locked⟩, ⟨"aa", 1, some "f1", .locked⟩]

/-- Every transaction is included at a height, to a depth. -/
def sampleChain (depth : ℕ) : ScannedChain where
  identity _ := some ⟨34575, Fixed.replicate 32 0⟩
  localTransactionRaw _ := true
  syncedOrchardConfirmationCount _ := depth
  denominationConfirmationsRequired := 3

theorem sampleRun_keyed (status : PendingStatus) : (sampleRun status).Keyed :=
  ⟨by cases status <;> decide, by cases status <;> decide⟩

theorem tracked_iff_sample : Tracked (sampleChain 3) (sampleRun .scheduled)
    (reconcileRunConfirmations (sampleChain 3) (sampleRun .scheduled)) :=
  (tracked_iff rfl (sampleRun_keyed _)).2 (by decide)

example : (reconcileRunConfirmations (sampleChain 3) (sampleRun .scheduled)).phase = .complete := by
  decide

/-- A mined part that waits for re-signing keeps the run open. -/
theorem mined_part_untracked : ¬ Tracked (sampleChain 3) (sampleRun .needsResign)
    (reconcileRunConfirmations (sampleChain 3) (sampleRun .needsResign)) := by
  intro h
  have hcompletes : Completes (sampleChain 3) (sampleRun .needsResign) :=
    ⟨by decide, by decide, by decide, by decide, by decide⟩
  have hphase : (reconcileRunConfirmations (sampleChain 3) (sampleRun .needsResign)).phase ≠
      .complete := by decide
  exact hphase (h.complete.2 hcompletes)

end VizorWallet.Migration.Store
