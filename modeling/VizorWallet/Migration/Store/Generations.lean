import VizorWallet.Library.Transition
import VizorWallet.Migration.Store.Expiry
import VizorWallet.Migration.Store.Ladder
import VizorWallet.Migration.Store.Receipts

/-!
# Generations of the recovery schedule

The recovery ladder over whole runs: between two calls parts come to wait for new signatures, are
replaced, accepted or dropped.

## Main definitions

* `Follows` — the ladder of a run after an operation that assigns no offsets.
* `LadderEvent` — what happens to a run between calls.

## Main results

* `operation_follows` — no operation moves an offset.
* `recovery_ladder` — what the calls of a run return.
-/

namespace VizorWallet.Migration.Store

open Reorg (Txid)

/-! ## Operations that assign no offsets -/

/-- The rows keep their keys, and no row gets an offset. -/
structure KeepsOffsets (rows rows' : List PendingTx) : Prop where
  keyed : Keyed rows → Keyed rows'
  offsets : ∀ row' ∈ rows', ∀ offset, row'.rebuildBlockOffset = some offset →
    ∃ row ∈ rows, row.rebuildBlockOffset = some offset

variable {rows rows' rows'' : List PendingTx} {run run' : Run}

namespace KeepsOffsets

theorem refl (rows : List PendingTx) : KeepsOffsets rows rows :=
  ⟨id, fun row' hrow' _ hoffset => ⟨row', hrow', hoffset⟩⟩

theorem trans (h : KeepsOffsets rows rows') (h' : KeepsOffsets rows' rows'') :
    KeepsOffsets rows rows'' := by
  refine ⟨fun hkeyed => h'.keyed (h.keyed hkeyed), fun row hrow offset hoffset => ?_⟩
  obtain ⟨middle, hmiddle, hsame⟩ := h'.offsets row hrow offset hoffset
  exact h.offsets middle hmiddle offset hsame

theorem sublist (h : rows'.Sublist rows) : KeepsOffsets rows rows' :=
  ⟨fun hkeyed => hkeyed.sublist h, fun row' hrow' _ hoffset => ⟨row', h.subset hrow', hoffset⟩⟩

/-- Rows that change in other columns. -/
theorem of_columns (htxids : rows'.map PendingTx.txid = rows.map PendingTx.txid)
    (hparts : rows'.map PendingTx.partIndex = rows.map PendingTx.partIndex)
    (hoffsets : rows'.map PendingTx.rebuildBlockOffset = rows.map PendingTx.rebuildBlockOffset) :
    KeepsOffsets rows rows' := by
  refine ⟨fun hkeyed => hkeyed.of_columns htxids hparts, fun row' hrow' offset hoffset => ?_⟩
  have hmem : some offset ∈ rows.map PendingTx.rebuildBlockOffset := by
    rw [← hoffsets, ← hoffset]
    exact List.mem_map_of_mem hrow'
  exact List.mem_map.1 hmem

theorem updateWhere {condition : PendingTx → Bool} {update : PendingTx → PendingTx}
    (htxid : ∀ row, (update row).txid = row.txid)
    (hpart : ∀ row, (update row).partIndex = row.partIndex)
    (hoffset : ∀ row, (update row).rebuildBlockOffset = row.rebuildBlockOffset) :
    KeepsOffsets rows (updateWhere condition update rows) :=
  of_columns (map_updateWhere htxid) (map_updateWhere hpart) (map_updateWhere hoffset)

/-- A new row has no offset. -/
theorem insertRow {error : String} {row : PendingTx} (hrow : row.rebuildBlockOffset = none)
    (h : insertRow error rows row = .ok rows') : KeepsOffsets rows rows' := by
  refine ⟨fun hkeyed => (insertRow_keyed hkeyed h).1, fun row' hrow' offset hoffset => ?_⟩
  simp only [Store.insertRow, bind_eq_ok, ensure_eq_ok, exists_const, pure_eq_ok] at h
  obtain ⟨-, -, rfl⟩ := h
  obtain hold | hnew := List.mem_append.1 hrow'
  · exact ⟨row', hold, hoffset⟩
  · rw [List.mem_singleton.1 hnew, hrow] at hoffset
    cases hoffset

end KeepsOffsets

/-- The ladder of a run after an operation that assigns no offsets. -/
structure Follows (run run' : Run) : Prop where
  origin : run'.recoveryScheduleOriginHeight = run.recoveryScheduleOriginHeight
  largest : run'.recoveryScheduleMaxBlockOffset = run.recoveryScheduleMaxBlockOffset
  rows : KeepsOffsets run.pending run'.pending

namespace Follows

theorem refl (run : Run) : Follows run run := ⟨rfl, rfl, .refl _⟩

theorem trans {run'' : Run} (h : Follows run run') (h' : Follows run' run'') :
    Follows run run'' :=
  ⟨h'.origin.trans h.origin, h'.largest.trans h.largest, h.rows.trans h'.rows⟩

theorem ladder (h : Follows run run') (hladder : Ladder run) : Ladder run' := by
  refine ⟨h.rows.keyed hladder.keyed, ?_, fun row' hrow' offset hoffset => ?_⟩
  · rw [h.origin, h.largest]
    exact hladder.origin
  · obtain ⟨row, hrow, hsame⟩ := h.rows.offsets row' hrow' offset hoffset
    rw [h.largest]
    exact hladder.bounded row hrow offset hsame

end Follows

theorem reconcileRunConfirmations_follows (chain : ScannedChain) (run : Run) :
    Follows run (reconcileRunConfirmations chain run) := by
  have hoffset (row : PendingTx) :
      (row.reconcile chain).rebuildBlockOffset = row.rebuildBlockOffset := by
    unfold PendingTx.reconcile
    split <;> rfl
  have hrows : Follows run (reconcileRows chain run) := by
    by_cases hphase : run.phase.releasesWalletLocks
    · rw [reconcileRows, if_pos hphase]
      exact .refl run
    · rw [reconcileRows, if_neg hphase]
      refine ⟨rfl, rfl, .of_columns ?_ ?_ ?_⟩ <;> dsimp only <;> rw [List.map_map]
      · exact List.map_congr_left fun row _ => reconcile_txid row
      · exact List.map_congr_left fun row _ => reconcile_partIndex row
      · exact List.map_congr_left fun row _ => hoffset row
  refine hrows.trans ?_
  rw [reconcileRunConfirmations]
  by_cases h : Settled chain (reconcileRows chain run)
  · rw [settleRun_settled h, completeRun]
    split_ifs
    · exact .refl _
    · exact ⟨rfl, rfl, .refl _⟩
  · rw [settleRun_open h]
    exact ⟨rfl, rfl, .refl _⟩

theorem markForResign_follows (condition : PendingTx → Bool) (run : Run) :
    Follows run (markForResign condition run).1 :=
  ⟨rfl, rfl, .updateWhere (fun _ => rfl) (fun _ => rfl) fun _ => rfl⟩

theorem reschedule_follows {chainTipHeight minimumDelayBlocks : ℕ} {excludedTxid : Option Txid}
    {offsets : Txid → ℕ} (h : rescheduleOverduePendingTxsWithOptions chainTipHeight
      minimumDelayBlocks excludedTxid offsets run = .ok run') : Follows run run' := by
  simp only [rescheduleOverduePendingTxsWithOptions, bind_eq_ok, mapM_eq_ok, pure_eq_ok] at h
  obtain ⟨pending, hpending, rfl⟩ := h
  have hspec : List.Forall₂ (fun row row' => row'.txid = row.txid ∧
      row'.partIndex = row.partIndex ∧ row'.rebuildBlockOffset = row.rebuildBlockOffset)
      run.pending pending := by
    refine hpending.imp fun row row' hresult => ?_
    split_ifs at hresult
    · simp only [PendingTx.redraw, bind_eq_ok] at hresult
      obtain ⟨scheduledHeight, -, canonicalExpiry, -, hrow⟩ := hresult
      split_ifs at hrow <;> obtain rfl := pure_eq_ok.1 hrow <;> exact ⟨rfl, rfl, rfl⟩
    · obtain rfl := Except.ok.inj hresult
      exact ⟨rfl, rfl, rfl⟩
  exact ⟨rfl, rfl, .of_columns (map_eq_of_forall₂ hspec fun _ _ h => h.1)
    (map_eq_of_forall₂ hspec fun _ _ h => h.2.1) (map_eq_of_forall₂ hspec fun _ _ h => h.2.2)⟩

theorem applyUpdate_keepsOffsets {state state' : List PendingTx × Bool}
    {update : MigrationOutboxScheduleUpdate} (h : applyUpdate state update = .ok state') :
    KeepsOffsets state.1 state'.1 := by
  simp only [applyUpdate, bind_eq_ok] at h
  obtain ⟨row, -, canonicalExpiry, -, hresult⟩ := h
  split_ifs at hresult
  · obtain rfl := pure_eq_ok.1 hresult
    exact .updateWhere (fun _ => rfl) (fun _ => rfl) fun _ => rfl
  · obtain rfl := pure_eq_ok.1 hresult
    exact .updateWhere (fun _ => rfl) (fun _ => rfl) fun _ => rfl
  · simp only [bind_eq_ok, pure_eq_ok] at hresult
    obtain ⟨-, -, rfl⟩ := hresult
    exact .refl _

theorem applyAccepted_follows {txid : Txid} {remoteHeight : ℕ}
    {updates : List MigrationOutboxScheduleUpdate}
    (h : applyAcceptedMigrationOutboxReceipt txid remoteHeight updates run = .ok run') :
    Follows run run' := by
  simp only [applyAcceptedMigrationOutboxReceipt, bind_eq_ok, orError_eq_ok] at h
  obtain ⟨accepted, -, -, -, -, -, ⟨pending, crossed⟩, hfold, hresult⟩ := h
  have hpending : KeepsOffsets run.pending pending :=
    @foldlM_invariant _ _ _ applyUpdate (fun state => KeepsOffsets run.pending state.1) _ _ _
      (fun _ _ _ _ hstate hround => hstate.trans (applyUpdate_keepsOffsets hround))
      (.refl _) hfold
  dsimp only at hresult
  split_ifs at hresult
  all_goals obtain rfl := pure_eq_ok.1 hresult
  · exact ⟨rfl, rfl, hpending.trans
      (.updateWhere (fun _ => rfl) (fun _ => rfl) fun _ => rfl)⟩
  · exact ⟨rfl, rfl, hpending.trans
      (.updateWhere (fun _ => rfl) (fun _ => rfl) fun _ => rfl)⟩
  all_goals exact ⟨rfl, rfl, hpending⟩

theorem insertPendingTxsWithTx_follows {key : PayloadKey} {drawn : List MigrationScheduleEntry}
    {pendingTxs : List PendingMigrationTxInsert}
    (h : insertPendingTxsWithTx key drawn pendingTxs run = .ok run') : Follows run run' := by
  simp only [insertPendingTxsWithTx, bind_eq_ok, pure_eq_ok] at h
  obtain ⟨-, -, ⟨parts, incoming⟩, -, pending, hpending, rfl⟩ := h
  refine ⟨rfl, rfl, foldlM_invariant (I := KeepsOffsets run.pending)
    (fun rows part rows' _ hstate hround => ?_) (.refl _) hpending⟩
  obtain ⟨encryptedRawTx, -, hinsert⟩ := bind_eq_ok.1 hround
  exact hstate.trans (.insertRow rfl hinsert)

theorem rebaseInitialSignedSchedule_follows {currentScannedHeight : ℕ} {applied : Bool}
    (h : rebaseInitialSignedSchedule currentScannedHeight run = .ok (run', applied)) :
    Follows run run' := by
  have hframe := rebaseInitialSignedSchedule_frame h
  have horigin := congrArg Run.recoveryScheduleOriginHeight hframe
  have hlargest := congrArg Run.recoveryScheduleMaxBlockOffset hframe
  have hpending := rebaseInitialSignedSchedule_pending h
  exact ⟨horigin, hlargest, hpending ▸ .refl _⟩

theorem promote_follows {key : PayloadKey} {drawn : List MigrationScheduleEntry}
    {currentScannedHeight remainingChildRetryHeight : ℕ}
    {pendingTxs : List PendingMigrationTxInsert}
    (h : promoteSignedChildPcztsToPendingTxs key drawn currentScannedHeight
      remainingChildRetryHeight pendingTxs run = .ok run') : Follows run run' := by
  unfold promoteSignedChildPcztsToPendingTxs at h
  split_ifs at h
  · obtain rfl := Except.ok.inj h
    exact .refl run
  · simp only [bind_eq_ok, pure_eq_ok] at h
    obtain ⟨-, -, ⟨rebased, _⟩, hrebased, refreshed, -, inserted, hinserted, rfl⟩ := h
    have hfollows : Follows run inserted :=
      (rebaseInitialSignedSchedule_follows hrebased).trans
        (insertPendingTxsWithTx_follows hinserted)
    exact ⟨hfollows.origin, hfollows.largest, hfollows.rows⟩

theorem replacePart_keepsOffsets {key : PayloadKey} {replacement : PendingMigrationTxReplacement}
    (h : replacePart key run rows replacement = .ok rows') : KeepsOffsets rows rows' := by
  simp only [replacePart, bind_eq_ok] at h
  obtain ⟨original, -, -, -, -, -, canonicalExpiry, -, -, -, start, -, -, -, encryptedRawTx, -,
    hinsert⟩ := h
  exact (KeepsOffsets.sublist List.filter_sublist).trans (.insertRow rfl hinsert)

theorem replace_follows {key : PayloadKey} {replacements : List PendingMigrationTxReplacement}
    {signedChildren : List SignedMigrationPcztInsert}
    (h : replaceResignedPendingParts key replacements signedChildren run = .ok run') :
    Follows run run' := by
  unfold replaceResignedPendingParts at h
  split_ifs at h
  · obtain rfl := Except.ok.inj h
    exact .refl run
  · simp only [bind_eq_ok, pure_eq_ok] at h
    obtain ⟨-, -, pending, hpending, inserted, hinserted, rfl⟩ := h
    have hkept : KeepsOffsets run.pending pending :=
      foldlM_invariant (I := KeepsOffsets run.pending)
        (fun _ _ _ _ hstate hround => hstate.trans (replacePart_keepsOffsets hround)) (.refl _)
        hpending
    simp only [insertSignedChildPczts, bind_eq_ok, pure_eq_ok] at hinserted
    obtain ⟨_, -, rfl⟩ := hinserted
    exact ⟨rfl, rfl, hkept⟩

theorem markDue_follows {chain : ScannedChain} {chainTipHeight affected : ℕ}
    (h : markDuePartsWithNoncanonicalBroadcastHeightForResign chain chainTipHeight run =
      .ok (run', affected)) : Follows run run' := by
  simp only [markDuePartsWithNoncanonicalBroadcastHeightForResign, bind_eq_ok, pure_eq_ok] at h
  obtain ⟨canonicalExpiry, -, hresult⟩ := h
  obtain rfl := (Prod.mk.inj hresult).1
  exact (reconcileRunConfirmations_follows chain run).trans (markForResign_follows _ _)

theorem markExpired_follows (chain : ScannedChain) (chainTipHeight : ℕ) (run : Run) :
    Follows run (markExpiredPendingPartsForResign chain chainTipHeight run).1 :=
  (reconcileRunConfirmations_follows chain run).trans (markForResign_follows _ _)

/-- Changes of the tables by other operations. -/
def Event.Amends : Event → Prop
  | .amend _ => True
  | _ => False

/-- No operation moves an offset. -/
theorem operation_follows {event : Event} (hamends : ¬ event.Amends)
    (h : step run event = some run') : Follows run run' := by
  cases event with
  | insert key drawn pendingTxs =>
    have hinsert := toOption_eq_some.1 h
    unfold insertPendingTxs at hinsert
    split_ifs at hinsert
    · obtain rfl := Except.ok.inj hinsert
      exact .refl run
    · exact insertPendingTxsWithTx_follows hinsert
  | promote key drawn currentScannedHeight remainingChildRetryHeight pendingTxs =>
    exact promote_follows (toOption_eq_some.1 h)
  | replace key replacements signedChildren => exact replace_follows (toOption_eq_some.1 h)
  | reschedule chainTipHeight minimumDelayBlocks excludedTxid offsets =>
    exact reschedule_follows (toOption_eq_some.1 h)
  | applyAccepted txid remoteHeight scheduleUpdates =>
    exact applyAccepted_follows (toOption_eq_some.1 h)
  | markNoncanonical chain chainTipHeight =>
    rw [step, Option.map_eq_some_iff] at h
    obtain ⟨⟨marked, affected⟩, hmark, rfl⟩ := h
    exact markDue_follows (toOption_eq_some.1 hmark)
  | markExpired chain chainTipHeight =>
    obtain rfl := Option.some.inj h
    exact markExpired_follows chain chainTipHeight run
  | markBroadcasted txid =>
    obtain rfl := Option.some.inj h
    exact ⟨rfl, rfl, .updateWhere (fun _ => rfl) (fun _ => rfl) fun _ => rfl⟩
  | reconcile chain =>
    obtain rfl := Option.some.inj h
    exact reconcileRunConfirmations_follows chain run
  | amend amended => exact absurd trivial hamends

/-- Nor does a receipt. -/
theorem receipt_follows (chain : ScannedChain) (transactions : TransactionStore)
    (receipt : Receipt) (run : Run) :
    Follows run (reconcileOrchardMigrationOutboxReceipt chain transactions receipt run).1 := by
  have hcommit {result : Except String Run}
      (h : ∀ run', result = .ok run' → Follows run run') :
      Follows run (commitResult run result).1 := by
    cases result with
    | error error => exact .refl run
    | ok run' => exact h run' rfl
  have haccepted (run' : Run) (h : reconcileAccepted transactions receipt run = .ok run') :
      Follows run run' := by
    simp only [reconcileAccepted, bind_eq_ok] at h
    obtain ⟨-, -, rawTx, -, actualTxid, -, -, -, -, -, happlied⟩ := h
    exact applyAccepted_follows happlied
  have hrejected (run' : Run) (h : reconcileRejected receipt run = .ok run') :
      Follows run run' := by
    obtain ⟨-, -, hretired⟩ := bind_eq_ok.1 h
    obtain rfl := pure_eq_ok.1 hretired
    split_ifs
    · exact .refl run
    · exact ⟨rfl, rfl, .refl _⟩
  unfold reconcileOrchardMigrationOutboxReceipt
  split
  · exact .refl run
  · split
    · exact hcommit haccepted
    · exact hcommit haccepted
    · exact hcommit hrejected
    · split
      · exact .refl run
      · exact .refl run
      · exact markExpired_follows chain receipt.remoteHeight run
    · split
      · exact .refl run
      · exact .refl run
      · split
        · exact .refl run
        case h_2 marked hmark => exact markDue_follows hmark
    · exact .refl run

/-! ## Runs -/

/-- The columns that a ladder consists of, with the keys of the rows. -/
def Run.ladderColumns (run : Run) : Option ℕ × Option ℕ × List (Txid × Option ℕ × Option ℕ) :=
  (run.recoveryScheduleOriginHeight, run.recoveryScheduleMaxBlockOffset,
    run.pending.map fun row => (row.txid, row.partIndex, row.rebuildBlockOffset))

/-- What happens to a run that has not been stopped. -/
inductive LadderEvent where
  | ensure (draws : Draws) (tip : ℕ)
  | operation (event : Event) (h : ¬ event.Amends)
  | receipt (chain : ScannedChain) (transactions : TransactionStore) (receipt : Receipt)
  -- The rows whose denomination has left the chain are deleted.
  | drop (txids : List Txid)
  | amend (amended : Run)

/-- The run after an event. What fails is rolled back. -/
def LadderEvent.after (run : Run) : LadderEvent → Run
  | .ensure draws tip =>
    match ensureRebuildScheduleGeneration draws tip run with
    | .ok (run', _) => run'
    | .error _ => run
  | .operation event _ => (step run event).getD run
  | .receipt chain transactions outcome =>
    (reconcileOrchardMigrationOutboxReceipt chain transactions outcome run).1
  | .drop txids => { run with pending := run.pending.filter (·.txid ∉ txids) }
  | .amend amended => if amended.ladderColumns = run.ladderColumns then amended else run

/-- The generation that a call returns. -/
def LadderEvent.generation (entry : Run × LadderEvent) : Option RebuildScheduleGeneration :=
  match entry.2 with
  | .ensure draws tip =>
    match ensureRebuildScheduleGeneration draws tip entry.1 with
    | .ok (_, generation) => generation
    | .error _ => none
  | _ => none

theorem amend_follows {amended : Run} (h : amended.ladderColumns = run.ladderColumns) :
    Follows run amended := by
  obtain ⟨horigin, hrest⟩ := Prod.mk.inj h
  obtain ⟨hlargest, hrows⟩ := Prod.mk.inj hrest
  have hcolumn {α : Type} (column : Txid × Option ℕ × Option ℕ → α) :
      amended.pending.map (fun row => column (row.txid, row.partIndex, row.rebuildBlockOffset)) =
        run.pending.map fun row => column (row.txid, row.partIndex, row.rebuildBlockOffset) := by
    have hmapped := congrArg (List.map column) hrows
    rwa [List.map_map, List.map_map] at hmapped
  exact ⟨horigin, hlargest, .of_columns (hcolumn Prod.fst) (hcolumn (·.2.1)) (hcolumn (·.2.2))⟩

/-- An event is a call that extends the ladder, or leaves it alone. -/
theorem LadderEvent.after_cases (hkeyed : run.Keyed) (event : LadderEvent) :
    (∃ draws tip generation, event = .ensure draws tip ∧
      LadderEvent.generation (run, event) = some generation ∧
      Extends tip run (event.after run) generation) ∨
    LadderEvent.generation (run, event) = none ∧ Follows run (event.after run) := by
  cases event with
  | ensure draws tip =>
    cases hcall : ensureRebuildScheduleGeneration draws tip run with
    | error error =>
      simp only [LadderEvent.after, LadderEvent.generation, hcall]
      exact .inr ⟨trivial, .refl run⟩
    | ok result =>
      obtain ⟨run', _ | generation⟩ := result
      · simp only [LadderEvent.after, LadderEvent.generation, hcall]
        rw [ensureRebuildScheduleGeneration_none hcall]
        exact .inr ⟨trivial, .refl run⟩
      · simp only [LadderEvent.after, LadderEvent.generation, hcall]
        exact .inl ⟨draws, tip, generation, rfl, rfl,
          ensureRebuildScheduleGeneration_extends hkeyed hcall⟩
  | operation event hamends =>
    refine .inr ⟨rfl, ?_⟩
    simp only [LadderEvent.after]
    cases hstep : step run event with
    | none => exact .refl run
    | some run' => exact operation_follows hamends hstep
  | receipt chain transactions receipt =>
    exact .inr ⟨rfl, receipt_follows chain transactions receipt run⟩
  | drop txids => exact .inr ⟨rfl, rfl, rfl, .sublist List.filter_sublist⟩
  | amend amended =>
    refine .inr ⟨rfl, ?_⟩
    simp only [LadderEvent.after]
    split_ifs with hcolumns
    · exact amend_follows hcolumns
    · exact .refl run

theorem LadderEvent.ladder_after (hladder : Ladder run) (event : LadderEvent) :
    Ladder (event.after run) := by
  obtain ⟨draws, tip, generation, -, -, hextends⟩ | ⟨-, hfollows⟩ :=
    LadderEvent.after_cases hladder.keyed event
  · exact hextends.ladder hladder
  · exact hfollows.ladder hladder

/-- The origin stays, and the largest offset grows. -/
structure Grown (run run' : Run) : Prop where
  origin : ∀ origin, run.recoveryScheduleOriginHeight = some origin →
    run'.recoveryScheduleOriginHeight = some origin
  largest : ∀ largest, run.recoveryScheduleMaxBlockOffset = some largest →
    ∃ largest', run'.recoveryScheduleMaxBlockOffset = some largest' ∧ largest ≤ largest'

theorem Grown.refl (run : Run) : Grown run run :=
  ⟨fun _ h => h, fun largest h => ⟨largest, h, le_rfl⟩⟩

theorem Grown.trans {run'' : Run} (h : Grown run run') (h' : Grown run' run'') :
    Grown run run'' := by
  refine ⟨fun origin horigin => h'.origin origin (h.origin origin horigin),
    fun largest hlargest => ?_⟩
  obtain ⟨middle, hmiddle, hle⟩ := h.largest largest hlargest
  obtain ⟨largest', hlargest', hle'⟩ := h'.largest middle hmiddle
  exact ⟨largest', hlargest', hle.trans hle'⟩

theorem LadderEvent.grown_after (hladder : Ladder run) (event : LadderEvent) :
    Grown run (event.after run) := by
  obtain ⟨draws, tip, generation, -, -, hextends⟩ | ⟨-, hfollows⟩ :=
    LadderEvent.after_cases hladder.keyed event
  · refine ⟨fun origin horigin => ?_, fun largest hlargest => ?_⟩
    · rw [hextends.persistedOrigin, hextends.origin, horigin, Option.getD_some]
    · obtain ⟨largest', hlargest', -, hbefore⟩ := hextends.largest
      exact ⟨largest', hlargest', hbefore largest hlargest⟩
  · refine ⟨fun origin horigin => hfollows.origin.trans horigin, fun largest hlargest => ?_⟩
    exact ⟨largest, hfollows.largest.trans hlargest, le_rfl⟩

/-- An offset that a call assigns: no row has had it. -/
def Assigns (run : Run) (generation : RebuildScheduleGeneration) (entry : Txid × ℕ) : Prop :=
  entry ∈ generation.offsetsByTxid ∧
    ¬ ∃ row ∈ run.pending, row.txid = entry.1 ∧ row.rebuildBlockOffset = some entry.2

/-- The later of two calls has the origin of the earlier one, and assigns nothing below what the
earlier one has returned. -/
def Continues (earlier later : Run × LadderEvent) : Prop :=
  (∀ largest, earlier.1.recoveryScheduleMaxBlockOffset = some largest →
    ∃ largest', later.1.recoveryScheduleMaxBlockOffset = some largest' ∧ largest ≤ largest') ∧
  ∀ generation generation', LadderEvent.generation earlier = some generation →
    LadderEvent.generation later = some generation' →
      generation'.originHeight = generation.originHeight ∧
      ∀ entry ∈ generation.offsetsByTxid, ∀ entry', Assigns later.1 generation' entry' →
        entry.2 ≤ entry'.2

theorem continues {event event' : LadderEvent} (hladder : Ladder run) (hladder' : Ladder run')
    (hgrown : Grown (event.after run) run') : Continues (run, event) (run', event') := by
  refine ⟨fun largest hlargest => ?_, fun generation generation' hgeneration hgeneration' => ?_⟩
  · exact ((event.grown_after hladder).trans hgrown).largest largest hlargest
  · obtain ⟨draws, tip, generation₁, -, hsome, hextends⟩ | ⟨hnone, -⟩ :=
      LadderEvent.after_cases hladder.keyed event
    · obtain rfl := Option.some.inj (hgeneration.symm.trans hsome)
      obtain ⟨draws', tip', generation₂, -, hsome', hextends'⟩ | ⟨hnone', -⟩ :=
        LadderEvent.after_cases hladder'.keyed event'
      · obtain rfl := Option.some.inj (hgeneration'.symm.trans hsome')
        have horigin := hgrown.origin _ hextends.persistedOrigin
        refine ⟨by rw [hextends'.origin, horigin, Option.getD_some], fun entry hentry entry'
          ⟨hmem, hnew⟩ => ?_⟩
        obtain ⟨largest, hlargest, hentries, -⟩ := hextends.largest
        obtain ⟨largest', hlargest', hle⟩ := hgrown.largest largest hlargest
        obtain hkept | hbase := hextends'.assigned entry' hmem
        · exact absurd hkept hnew
        · exact (hentries entry hentry).trans (hle.trans (hbase largest' hlargest'))
      · rw [hnone'] at hgeneration'
        cases hgeneration'
    · rw [hnone] at hgeneration
      cases hgeneration

/-- The recovery ladder of a run that starts without one: what each call returns, and what any two
calls have to do with each other. -/
theorem recovery_ladder (hkeyed : run.Keyed)
    (hlargest : run.recoveryScheduleMaxBlockOffset = none)
    (hoffsets : ∀ row ∈ run.pending, row.rebuildBlockOffset = none) (events : List LadderEvent) :
    (∀ entry ∈ history LadderEvent.after run events,
      (∀ row ∈ entry.1.pending, ∀ offset, row.rebuildBlockOffset = some offset →
        ∃ largest, entry.1.recoveryScheduleMaxBlockOffset = some largest ∧ offset ≤ largest) ∧
      ∀ draws tip, entry.2 = .ensure draws tip →
        (∀ error, ensureRebuildScheduleGeneration draws tip entry.1 = .error error →
          error ∉ ladderErrors) ∧
        ∀ run' generation,
          ensureRebuildScheduleGeneration draws tip entry.1 = .ok (run', some generation) →
          (generation.offsetsByTxid.map Prod.fst).Nodup ∧
          (∀ txid, txid ∈ generation.offsetsByTxid.map Prod.fst ↔
            ∃ row ∈ entry.1.pending, row.status = .needsResign ∧ row.txid = txid) ∧
          (generation.originHeight ≤ tip → ∀ part ∈ generation.offsetsByTxid,
            tip ≤ generation.originHeight + part.2) ∧
          (∀ row ∈ entry.1.pending, row.status = .needsResign → ∀ offset,
            row.rebuildBlockOffset = some offset → tip - generation.originHeight ≤ offset →
              (row.txid, offset) ∈ generation.offsetsByTxid) ∧
          List.Forall₂ (Rescheduled generation) entry.1.pending run'.pending) ∧
    (history LadderEvent.after run events).Pairwise Continues := by
  have hladder : Ladder run := by
    refine ⟨hkeyed, fun _ => hlargest, fun row hrow offset hoffset => ?_⟩
    rw [hoffsets row hrow] at hoffset
    cases hoffset
  have hkeep (run : Run) (event : LadderEvent) (h : Ladder run) := event.ladder_after h
  have hgrow (run : Run) (event : LadderEvent) (h : Ladder run) := event.grown_after h
  refine ⟨fun entry hentry => ?_, pairwise_history Grown.refl (fun _ _ _ => Grown.trans) hkeep
    hgrow (fun _ _ _ _ h h' hgrown => continues h h' hgrown) hladder events⟩
  obtain ⟨hbefore, -⟩ :=
    forall_history Grown.refl (fun _ _ _ => Grown.trans) hkeep hgrow hladder events entry hentry
  refine ⟨hbefore.bounded, fun draws tip _ => ⟨fun error => hbefore.not_refused,
    fun run' generation hcall => ?_⟩⟩
  have hextends := ensureRebuildScheduleGeneration_extends hbefore.keyed hcall
  refine ⟨hextends.nodup, hextends.covers, fun hle part hpart => ?_, hextends.kept, hextends.rows⟩
  have helapsed := hextends.elapsed part hpart
  omega

/-- Draws that delay every part by one block. -/
def sampleDraws : Draws where
  slots := .none
  sampler maxDelayBlocks := .ofAccepted (fun _ => min 1 maxDelayBlocks) fun _ => min_le_right _ _

theorem recovery_ladder_sample :
    LadderEvent.generation (sampleRun .needsResign, .ensure sampleDraws 40000) =
      some ⟨40000, [("c1", 1)]⟩ ∧
    (history LadderEvent.after (sampleRun .needsResign)
      [.ensure sampleDraws 40000, .ensure sampleDraws 41000]).Pairwise Continues :=
  ⟨by decide +kernel, (recovery_ladder (sampleRun_keyed .needsResign) rfl (by decide) _).2⟩

end VizorWallet.Migration.Store
