import VizorWallet.Library.Pointwise
import VizorWallet.Library.Transition
import VizorWallet.Migration.Store.Broadcasts

/-!
# Expiry heights over whole runs

Every scheduled part has the expiry that belongs to its scheduled height, as long as no part is
demoted whose construction target lies in another bucket.

## Main definitions

* `Event`, `system` — the operations on a run.
* `PendingTx.OnSchedule` — the invariant of a row.
* `NoCrossing` — no demoted row crosses a bucket.

## Main results

* `expiry_canonical` — the invariant over whole runs, and what can be handed out.
-/

namespace VizorWallet.Migration.Store

open Reorg (Txid)

/-- A scheduled row has the expiry that belongs to its height. -/
def PendingTx.OnSchedule (row : PendingTx) : Prop :=
  row.status = .scheduled → ∃ height, row.scheduledHeight = some height ∧
    Canonical height row.expiryHeight

/-- The rows are keyed and on schedule. -/
structure WellScheduled (rows : List PendingTx) : Prop where
  keyed : Keyed rows
  onSchedule : ∀ row ∈ rows, row.OnSchedule

/-- A part that a reconciliation demotes has the expiry that belongs to its construction target. -/
def NoCrossing (chain : ScannedChain) (run : Run) : Prop :=
  run.phase.releasesWalletLocks = false → ∀ row ∈ run.pending, row.reorged chain →
    Canonical row.targetHeight row.expiryHeight

variable {chain : ScannedChain} {run run' : Run} {rows : List PendingTx}

/-! ## Reconciliation -/

@[simp] theorem settleRun_pending : (settleRun chain run).pending = run.pending := by
  by_cases h : Settled chain run
  · rw [settleRun_settled h, completeRun]
    split_ifs <;> rfl
  · rw [settleRun_open h]

theorem reconcile_onSchedule {row : PendingTx} (h : row.OnSchedule)
    (hreorged : row.reorged chain → Canonical row.targetHeight row.expiryHeight) :
    (row.reconcile chain).OnSchedule := by
  unfold PendingTx.reconcile
  split
  · rintro ⟨⟩
  · rintro ⟨⟩
  · rename_i hstatus hchain
    exact fun _ => ⟨_, rfl, hreorged (by simp [PendingTx.reorged, hstatus, hchain])⟩
  · exact h

theorem reconcileRunConfirmations_wellScheduled (h : WellScheduled run.pending)
    (hcrossing : NoCrossing chain run) :
    WellScheduled (reconcileRunConfirmations chain run).pending := by
  rw [reconcileRunConfirmations, settleRun_pending]
  by_cases hphase : run.phase.releasesWalletLocks
  · rwa [reconcileRows, if_pos hphase]
  · rw [reconcileRows, if_neg hphase]
    refine ⟨h.keyed.of_columns ?_ ?_, ?_⟩
    · simp only [List.map_map]
      exact List.map_congr_left fun row _ => reconcile_txid row
    · simp only [List.map_map]
      exact List.map_congr_left fun row _ => reconcile_partIndex row
    · exact List.forall_mem_map.2 fun row hrow => reconcile_onSchedule (h.onSchedule row hrow)
        (hcrossing (by simpa using hphase) row hrow)

/-! ## Updates of the rows -/

theorem WellScheduled.updateWhere {condition : PendingTx → Bool} {update : PendingTx → PendingTx}
    (h : WellScheduled rows) (htxid : ∀ row, (update row).txid = row.txid)
    (hpart : ∀ row, (update row).partIndex = row.partIndex)
    (hupdate : ∀ row ∈ rows, condition row → (update row).OnSchedule) :
    WellScheduled (updateWhere condition update rows) := by
  refine ⟨h.keyed.updateWhere htxid hpart, fun row' hrow' => ?_⟩
  obtain ⟨row, hrow, rfl⟩ := mem_updateWhere.1 hrow'
  split_ifs with hcondition
  · exact hupdate row hrow hcondition
  · exact h.onSchedule row hrow

theorem markForResign_wellScheduled {condition : PendingTx → Bool}
    (h : WellScheduled run.pending) : WellScheduled (markForResign condition run).1.pending :=
  h.updateWhere (fun _ => rfl) (fun _ => rfl) fun _ _ _ => nofun

theorem updateRunAfterPendingBroadcast_pending :
    (updateRunAfterPendingBroadcast run).pending = run.pending := rfl

theorem markPendingBroadcasted_wellScheduled {txid : Txid} (h : WellScheduled run.pending) :
    WellScheduled (markPendingBroadcasted txid run).pending :=
  h.updateWhere (fun _ => rfl) (fun _ => rfl) fun _ _ _ => nofun

/-- A redrawn row keeps its keys. -/
theorem redraw_spec {chainTipHeight minimumDelayBlocks : ℕ} {offsets : Txid → ℕ}
    {row row' : PendingTx}
    (h : row.redraw chainTipHeight minimumDelayBlocks offsets = .ok row') :
    row'.txid = row.txid ∧ row'.partIndex = row.partIndex ∧ row'.OnSchedule := by
  simp only [PendingTx.redraw, bind_eq_ok] at h
  obtain ⟨scheduledHeight, -, canonicalExpiry, hcanonical, hrow⟩ := h
  split_ifs at hrow with hexpiry
  · obtain rfl := pure_eq_ok.1 hrow
    exact ⟨rfl, rfl, fun h => by cases h⟩
  · obtain rfl := pure_eq_ok.1 hrow
    refine ⟨rfl, rfl, fun _ => ⟨scheduledHeight, rfl, ?_⟩⟩
    exact hcanonical.trans (congrArg _ (not_not.1 hexpiry))

theorem reschedule_wellScheduled {chainTipHeight minimumDelayBlocks : ℕ}
    {excludedTxid : Option Txid} {offsets : Txid → ℕ} (hrows : WellScheduled run.pending)
    (h : rescheduleOverduePendingTxsWithOptions chainTipHeight minimumDelayBlocks excludedTxid
      offsets run = .ok run') : WellScheduled run'.pending := by
  simp only [rescheduleOverduePendingTxsWithOptions, bind_eq_ok, mapM_eq_ok, pure_eq_ok] at h
  obtain ⟨pending, hpending, rfl⟩ := h
  have hspec : List.Forall₂ (fun row row' => row'.txid = row.txid ∧
      row'.partIndex = row.partIndex ∧ (row.OnSchedule → row'.OnSchedule)) run.pending pending := by
    refine hpending.imp fun row row' hresult => ?_
    split_ifs at hresult
    · obtain ⟨htxid, hpart, hrow'⟩ := redraw_spec hresult
      exact ⟨htxid, hpart, fun _ => hrow'⟩
    · obtain rfl := Except.ok.inj hresult
      exact ⟨rfl, rfl, id⟩
  refine ⟨hrows.keyed.of_columns (map_eq_of_forall₂ hspec fun _ _ h => h.1)
    (map_eq_of_forall₂ hspec fun _ _ h => h.2.1), fun row' hrow' => ?_⟩
  obtain ⟨row, hrow, -, -, hkept⟩ := exists_mem_left hspec hrow'
  exact hkept (hrows.onSchedule row hrow)

/-! ## Accepted receipts -/

theorem applyUpdate_wellScheduled {state state' : List PendingTx × Bool}
    {update : MigrationOutboxScheduleUpdate} (hrows : WellScheduled state.1)
    (h : applyUpdate state update = .ok state') : WellScheduled state'.1 := by
  simp only [applyUpdate, bind_eq_ok, orError_eq_ok] at h
  obtain ⟨row, hrow, canonicalExpiry, hcanonical, hresult⟩ := h
  split_ifs at hresult with hstatus hexpiry
  · obtain rfl := pure_eq_ok.1 hresult
    exact hrows.updateWhere (fun _ => rfl) (fun _ => rfl) fun _ _ _ h => by cases h
  · obtain rfl := pure_eq_ok.1 hresult
    refine hrows.updateWhere (fun _ => rfl) (fun _ => rfl) fun row' hrow' htxid _ => ?_
    obtain rfl := hrows.keyed.eq_of_find hrow hrow' (of_decide_eq_true htxid)
    exact ⟨update.scheduledHeight, rfl, hcanonical.trans (congrArg _ (not_not.1 hexpiry))⟩
  · simp only [bind_eq_ok, ensure_eq_ok, exists_const, pure_eq_ok] at hresult
    obtain ⟨-, rfl⟩ := hresult
    exact hrows

theorem applyAccepted_wellScheduled {txid : Txid} {remoteHeight : ℕ}
    {updates : List MigrationOutboxScheduleUpdate} (hrows : WellScheduled run.pending)
    (h : applyAcceptedMigrationOutboxReceipt txid remoteHeight updates run = .ok run') :
    WellScheduled run'.pending := by
  simp only [applyAcceptedMigrationOutboxReceipt, bind_eq_ok, orError_eq_ok] at h
  obtain ⟨accepted, -, -, -, -, -, ⟨pending, crossed⟩, hfold, hresult⟩ := h
  have hpending : WellScheduled pending :=
    @foldlM_invariant _ _ _ applyUpdate (fun state => WellScheduled state.1) _ _ _
      (fun _ _ _ _ hstate hstep => applyUpdate_wellScheduled hstate hstep) hrows hfold
  dsimp only at hresult
  split_ifs at hresult
  all_goals obtain rfl := pure_eq_ok.1 hresult
  · exact hpending.updateWhere (fun _ => rfl) (fun _ => rfl) fun _ _ _ h => by cases h
  · exact hpending.updateWhere (fun _ => rfl) (fun _ => rfl) fun _ _ _ h => by cases h
  all_goals exact hpending

/-! ## Inserted parts -/

/-- The keys of the table reject a row whose id or part is taken. -/
theorem insertRow_keyed {error : String} {row : PendingTx} {rows' : List PendingTx}
    (hrows : Keyed rows) (h : insertRow error rows row = .ok rows') :
    Keyed rows' ∧ rows' = rows ++ [row] := by
  simp only [insertRow, bind_eq_ok, ensure_eq_ok, exists_const, pure_eq_ok] at h
  obtain ⟨htxid, hpart, rfl⟩ := h
  refine ⟨⟨?_, ?_⟩, rfl⟩
  · rw [List.map_append, List.map_singleton]
    exact hrows.txids.append (List.nodup_singleton _) (List.disjoint_singleton.2 htxid)
  · cases hindex : row.partIndex with
    | none => simpa [hindex] using hrows.parts
    | some index =>
      simp only [hindex, Option.isNone_some, Bool.false_eq_true, false_or, List.mem_map,
        not_exists, not_and] at hpart
      rw [List.filterMap_append, List.filterMap_cons_some hindex, List.filterMap_nil]
      refine hrows.parts.append (List.nodup_singleton _) (List.disjoint_singleton.2 ?_)
      rw [List.mem_filterMap]
      rintro ⟨other, hother, hsame⟩
      exact hpart other hother hsame

theorem insertRow_wellScheduled {error : String} {row : PendingTx} {rows' : List PendingTx}
    (hrows : WellScheduled rows) (hrow : row.OnSchedule)
    (h : insertRow error rows row = .ok rows') : WellScheduled rows' := by
  obtain ⟨hkeyed, rfl⟩ := insertRow_keyed hrows.keyed h
  refine ⟨hkeyed, fun row' hrow' => ?_⟩
  obtain hold | hnew := List.mem_append.1 hrow'
  · exact hrows.onSchedule row' hold
  · rwa [List.mem_singleton.1 hnew]

/-- The parts of a batch that passes the checks are on schedule. -/
theorem validateParts_canonical {schedule : List MigrationScheduleEntry} {seen : List ℕ}
    {incoming incoming' : Option ℕ} {pendingTxs : List PendingMigrationTxInsert}
    {parts : List (PendingMigrationTxInsert × ℕ)}
    (h : validateParts run schedule seen incoming pendingTxs = .ok (parts, incoming')) :
    ∀ part ∈ parts, Canonical part.1.scheduledHeight part.1.expiryHeight := by
  induction pendingTxs generalizing seen incoming parts incoming' with
  | nil =>
    obtain ⟨rfl, -⟩ := Prod.mk.inj (Except.ok.inj h)
    exact nofun
  | cons pending rest ih =>
    simp only [validateParts, bind_eq_ok, ensure_eq_ok, exists_const] at h
    obtain ⟨-, entry, -, recovered, -, origin, -, next, -, canonicalExpiry, hcanonical, hexpiry,
      ⟨restParts, restIncoming⟩, hrest, hresult⟩ := h
    obtain ⟨rfl, -⟩ := Prod.mk.inj (pure_eq_ok.1 hresult)
    rw [List.forall_mem_cons]
    exact ⟨hexpiry ▸ hcanonical, ih hrest⟩

theorem insert_wellScheduled {key : PayloadKey} {drawn : List MigrationScheduleEntry}
    {pendingTxs : List PendingMigrationTxInsert} (hrows : WellScheduled run.pending)
    (h : insertPendingTxsWithTx key drawn pendingTxs run = .ok run') :
    WellScheduled run'.pending := by
  simp only [insertPendingTxsWithTx, bind_eq_ok, pure_eq_ok] at h
  obtain ⟨-, -, ⟨parts, incoming⟩, hparts, pending, hpending, rfl⟩ := h
  refine foldlM_invariant (fun rows part rows' hpart hstate hstep => ?_) hrows hpending
  obtain ⟨encryptedRawTx, -, hinsert⟩ := bind_eq_ok.1 hstep
  refine insertRow_wellScheduled hstate (fun _ => ⟨_, rfl, ?_⟩) hinsert
  exact validateParts_canonical hparts part hpart

/-- A rebase writes the signed children, the signed origin and the marker. -/
theorem rebaseInitialSignedSchedule_frame {currentScannedHeight : ℕ} {applied : Bool}
    (h : rebaseInitialSignedSchedule currentScannedHeight run = .ok (run', applied)) :
    run' = { run with
      signedChildren := run'.signedChildren
      signedScheduleOriginHeight := run'.signedScheduleOriginHeight
      initialScheduleRebasedOriginHeight := run'.initialScheduleRebasedOriginHeight } := by
  unfold rebaseInitialSignedSchedule at h
  split at h
  · split_ifs at h
    · obtain ⟨rfl, -⟩ := Prod.mk.inj (Except.ok.inj h)
      rfl
    · obtain ⟨children, -, hrebase⟩ := bind_eq_ok.1 h
      split_ifs at hrebase
      · obtain ⟨rfl, -⟩ := Prod.mk.inj (pure_eq_ok.1 hrebase)
        rfl
      · dsimp only at hrebase
        split_ifs at hrebase
        · obtain ⟨rfl, -⟩ := Prod.mk.inj (pure_eq_ok.1 hrebase)
          rfl
        · obtain ⟨rebase, -, hresult⟩ := bind_eq_ok.1 hrebase
          cases rebase <;> obtain ⟨rfl, -⟩ := Prod.mk.inj (pure_eq_ok.1 hresult) <;> rfl
  · obtain ⟨rfl, -⟩ := Prod.mk.inj (Except.ok.inj h)
    rfl

theorem rebaseInitialSignedSchedule_pending {currentScannedHeight : ℕ} {applied : Bool}
    (h : rebaseInitialSignedSchedule currentScannedHeight run = .ok (run', applied)) :
    run'.pending = run.pending := by
  rw [rebaseInitialSignedSchedule_frame h]

theorem promote_wellScheduled {key : PayloadKey} {drawn : List MigrationScheduleEntry}
    {currentScannedHeight remainingChildRetryHeight : ℕ}
    {pendingTxs : List PendingMigrationTxInsert} (hrows : WellScheduled run.pending)
    (h : promoteSignedChildPcztsToPendingTxs key drawn currentScannedHeight
      remainingChildRetryHeight pendingTxs run = .ok run') : WellScheduled run'.pending := by
  unfold promoteSignedChildPcztsToPendingTxs at h
  split_ifs at h
  · obtain rfl := Except.ok.inj h
    exact hrows
  · simp only [bind_eq_ok, pure_eq_ok] at h
    obtain ⟨-, -, ⟨rebased, _⟩, hrebased, refreshed, -, inserted, hinserted, rfl⟩ := h
    have hkept : WellScheduled rebased.pending :=
      rebaseInitialSignedSchedule_pending hrebased ▸ hrows
    have hresult : WellScheduled inserted.pending := insert_wellScheduled hkept hinserted
    exact hresult

theorem replacePart_wellScheduled {key : PayloadKey} {rows' : List PendingTx}
    {replacement : PendingMigrationTxReplacement} (hrows : WellScheduled rows)
    (h : replacePart key run rows replacement = .ok rows') : WellScheduled rows' := by
  simp only [replacePart, bind_eq_ok, ensure_eq_ok, exists_const] at h
  obtain ⟨original, -, -, -, canonicalExpiry, hcanonical, hexpiry, start, -, -, encryptedRawTx, -,
    hinsert⟩ := h
  have hkept : WellScheduled (rows.filter (·.txid ≠ replacement.oldTxid)) :=
    ⟨hrows.keyed.sublist List.filter_sublist, fun row hrow =>
      hrows.onSchedule row (List.mem_of_mem_filter hrow)⟩
  refine insertRow_wellScheduled hkept (fun _ => ⟨_, rfl, ?_⟩) hinsert
  exact hcanonical.trans (congrArg _ hexpiry.symm)

theorem insertSignedChildPczts_pending {mode : SignedChildInsertMode}
    {signedChildren : List SignedMigrationPcztInsert}
    (h : insertSignedChildPczts mode signedChildren run = .ok run') :
    run'.pending = run.pending := by
  simp only [insertSignedChildPczts, bind_eq_ok, pure_eq_ok] at h
  obtain ⟨_, -, rfl⟩ := h
  rfl

theorem replace_wellScheduled {key : PayloadKey}
    {replacements : List PendingMigrationTxReplacement}
    {signedChildren : List SignedMigrationPcztInsert} (hrows : WellScheduled run.pending)
    (h : replaceResignedPendingParts key replacements signedChildren run = .ok run') :
    WellScheduled run'.pending := by
  unfold replaceResignedPendingParts at h
  split_ifs at h
  · obtain rfl := Except.ok.inj h
    exact hrows
  · simp only [bind_eq_ok, ensure_eq_ok, exists_const, pure_eq_ok] at h
    obtain ⟨-, pending, hpending, inserted, hinserted, rfl⟩ := h
    have hkept : WellScheduled pending := foldlM_invariant
      (fun _ _ _ _ hstate hstep => replacePart_wellScheduled hstate hstep) hrows hpending
    exact insertSignedChildPczts_pending hinserted ▸ hkept

/-! ## Selection -/

theorem otherError_notCanonical {α : Type} {result : Except String α} {txid : Txid} {height : ℕ} :
    otherError result ≠ .error (.notCanonical txid height) := by
  cases result <;> exact nofun

theorem checkCanonical_of_canonical {row : PendingTx} {height : ℕ}
    (h : Canonical height row.expiryHeight) : checkCanonical row height = .ok () := by
  have hexpiry : zip318CanonicalMigrationExpiryHeight height = .ok row.expiryHeight := h
  rw [checkCanonical, hexpiry]
  exact ensure_of _ rfl

/-- Selection among rows on schedule does not fail on an expiry, and hands out one of them. -/
theorem selectDue_spec {key : PayloadKey}
    (h : ∀ row ∈ rows, Canonical (row.scheduledHeight.getD 0) row.expiryHeight) :
    (∀ txid height, selectDue chain key rows ≠ .error (.notCanonical txid height)) ∧
      ∀ due, selectDue chain key rows = .ok due →
        ∀ part ∈ due, ∃ row ∈ rows, row.txid = part.txid := by
  induction rows with
  | nil =>
    refine ⟨fun _ _ => nofun, fun due hdue => ?_⟩
    obtain rfl := Except.ok.inj hdue
    exact nofun
  | cons row rest ih =>
    obtain ⟨hrow, hrest⟩ := List.forall_mem_cons.1 h
    rw [selectDue]
    split_ifs with hchain
    · refine ⟨(ih hrest).1, fun due hdue part hpart => ?_⟩
      obtain ⟨other, hother, htxid⟩ := (ih hrest).2 due hdue part hpart
      exact ⟨other, List.mem_cons_of_mem row hother, htxid⟩
    · rw [checkCanonical_of_canonical hrow, ok_bind]
      refine ⟨fun txid height herror => ?_, fun due hdue part hpart => ?_⟩
      · obtain herror | ⟨_, -, herror⟩ := bind_eq_error.1 herror
        · exact otherError_notCanonical herror
        · cases herror
      · obtain ⟨rawTx, -, hresult⟩ := bind_eq_ok.1 hdue
        obtain rfl := pure_eq_ok.1 hresult
        obtain rfl := List.mem_singleton.1 hpart
        exact ⟨row, List.mem_cons_self, rfl⟩

theorem PendingTx.OnSchedule.canonical {row : PendingTx} (h : row.OnSchedule)
    (hstatus : row.status = .scheduled) :
    Canonical (row.scheduledHeight.getD 0) row.expiryHeight := by
  obtain ⟨height, hheight, hcanonical⟩ := h hstatus
  rwa [hheight]

theorem duePendingTxs_notCanonical {chainTipHeight : ℕ} {key : PayloadKey}
    (h : WellScheduled run.pending) (hcrossing : NoCrossing chain run) (txid : Txid) (height : ℕ) :
    (duePendingTxs chain chainTipHeight key run).2 ≠ .error (.notCanonical txid height) := by
  have hreconciled := reconcileRunConfirmations_wellScheduled h hcrossing
  refine (selectDue_spec fun row hrow => ?_).1 txid height
  obtain ⟨hmem, hselected⟩ := List.mem_filter.1 (List.mem_mergeSort.1 hrow)
  exact (hreconciled.onSchedule row hmem).canonical (of_decide_eq_true hselected).1

theorem exportItem_notCanonical {key : PayloadKey} {row : PendingTx} (h : row.OnSchedule)
    (hstatus : row.status = .scheduled) (txid : Txid) (height : ℕ) :
    exportItem key row ≠ .error (.notCanonical txid height) := by
  obtain ⟨scheduledHeight, hheight, hcanonical⟩ := h hstatus
  have hoption {α : Type} (value : Option α) (error : String) :
      orError value (SelectionError.other error) ≠ .error (.notCanonical txid height) := by
    cases value <;> exact nofun
  have hensure {condition : Prop} [Decidable condition] (error : String) :
      ensure condition (SelectionError.other error) ≠ .error (.notCanonical txid height) :=
    fun h => nomatch (ensure_eq_error.1 h).2
  intro herror
  rw [exportItem, hheight] at herror
  obtain herror | ⟨_, hscheduled, herror⟩ := bind_eq_error.1 herror
  · exact hoption _ _ herror
  obtain rfl := Option.some.inj (orError_eq_ok.1 hscheduled)
  obtain herror | ⟨partIndex, -, herror⟩ := bind_eq_error.1 herror
  · exact hoption _ _ herror
  obtain herror | ⟨anchorBoundaryHeight, -, herror⟩ := bind_eq_error.1 herror
  · exact hoption _ _ herror
  obtain herror | ⟨scheduleStartHeight, -, herror⟩ := bind_eq_error.1 herror
  · exact hoption _ _ herror
  obtain herror | ⟨_, -, herror⟩ := bind_eq_error.1 herror
  · exact hensure _ herror
  rw [checkCanonical_of_canonical hcanonical, ok_bind] at herror
  obtain herror | ⟨rawTx, -, herror⟩ := bind_eq_error.1 herror
  · exact otherError_notCanonical herror
  · cases herror

theorem export_notCanonical {key : PayloadKey} (h : WellScheduled run.pending) (txid : Txid)
    (height : ℕ) : exportScheduledMigrationOutbox key run ≠ .error (.notCanonical txid height) := by
  intro herror
  obtain ⟨row, hrow, hitem⟩ := exists_of_mapM_eq_error herror
  obtain ⟨hmem, hstatus⟩ := List.mem_filter.1 (List.mem_mergeSort.1 hrow)
  exact exportItem_notCanonical (h.onSchedule row hmem) (of_decide_eq_true hstatus) txid height
    hitem

/-! ## Marking -/

theorem markDue_wellScheduled {chainTipHeight affected : ℕ} (hrows : WellScheduled run.pending)
    (hcrossing : NoCrossing chain run)
    (h : markDuePartsWithNoncanonicalBroadcastHeightForResign chain chainTipHeight run =
      .ok (run', affected)) : WellScheduled run'.pending := by
  simp only [markDuePartsWithNoncanonicalBroadcastHeightForResign, bind_eq_ok, pure_eq_ok] at h
  obtain ⟨canonicalExpiry, -, hresult⟩ := h
  obtain rfl := (Prod.mk.inj hresult).1
  exact markForResign_wellScheduled (reconcileRunConfirmations_wellScheduled hrows hcrossing)

/-- What is left scheduled at a height by the marking pass is unexpired there. -/
theorem markDue_unexpired {chainTipHeight affected : ℕ}
    (h : markDuePartsWithNoncanonicalBroadcastHeightForResign chain chainTipHeight run =
      .ok (run', affected)) {row : PendingTx} (hrow : row ∈ run'.pending)
    (hstatus : row.status = .scheduled) (hdue : row.dueAt chainTipHeight) :
    chainTipHeight < row.expiryHeight := by
  simp only [markDuePartsWithNoncanonicalBroadcastHeightForResign, bind_eq_ok, pure_eq_ok] at h
  obtain ⟨canonicalExpiry, hcanonical, hresult⟩ := h
  obtain rfl := (Prod.mk.inj hresult).1
  obtain ⟨old, -, rfl⟩ := mem_updateWhere.1 hrow
  split_ifs at hstatus hdue ⊢ with hcondition
  · have hexpiry : old.expiryHeight = canonicalExpiry := by
      by_contra hne
      exact hcondition (decide_eq_true ⟨hstatus, hdue, hne⟩)
    exact Canonical.lt (hcanonical.trans (congrArg _ hexpiry.symm))

/-- Marking a run that has not ended leaves tracked rows. -/
theorem markDue_tracked {chainTipHeight affected : ℕ}
    (hphase : run.phase.releasesWalletLocks = false)
    (h : markDuePartsWithNoncanonicalBroadcastHeightForResign chain chainTipHeight run =
      .ok (run', affected)) : ∀ row ∈ run'.pending, row.reconcile chain = row := by
  simp only [markDuePartsWithNoncanonicalBroadcastHeightForResign, bind_eq_ok, pure_eq_ok] at h
  obtain ⟨canonicalExpiry, -, hresult⟩ := h
  obtain rfl := (Prod.mk.inj hresult).1
  intro row hrow
  obtain ⟨old, hold, rfl⟩ := mem_updateWhere.1 hrow
  split_ifs
  · unfold PendingTx.reconcile
    rfl
  · rw [reconcileRunConfirmations, settleRun_pending, reconcileRows_eq hphase] at hold
    obtain ⟨before, -, rfl⟩ := List.mem_map.1 hold
    exact reconcile_idem before

/-! ## Runs -/

/-- The operations on a run; the other tables change in any way in between. -/
inductive Event where
  | insert (key : PayloadKey) (drawn : List MigrationScheduleEntry)
    (pendingTxs : List PendingMigrationTxInsert)
  | promote (key : PayloadKey) (drawn : List MigrationScheduleEntry)
    (currentScannedHeight remainingChildRetryHeight : ℕ)
    (pendingTxs : List PendingMigrationTxInsert)
  | replace (key : PayloadKey) (replacements : List PendingMigrationTxReplacement)
    (signedChildren : List SignedMigrationPcztInsert)
  | reschedule (chainTipHeight minimumDelayBlocks : ℕ) (excludedTxid : Option Txid)
    (offsets : Txid → ℕ)
  | applyAccepted (txid : Txid) (remoteHeight : ℕ)
    (scheduleUpdates : List MigrationOutboxScheduleUpdate)
  | markNoncanonical (chain : ScannedChain) (chainTipHeight : ℕ)
  | markExpired (chain : ScannedChain) (chainTipHeight : ℕ)
  | markBroadcasted (txid : Txid)
  | reconcile (chain : ScannedChain)
  | amend (run : Run)

/-- The columns of a row that other operations do not write. -/
def PendingTx.scheduleColumns (row : PendingTx) : PendingTx :=
  { row with rebuildBlockOffset := none, broadcastAttempted := .notAttempted }

def step (run : Run) : Event → Option Run
  | .insert key drawn pendingTxs => (insertPendingTxs key drawn pendingTxs run).toOption
  | .promote key drawn currentScannedHeight remainingChildRetryHeight pendingTxs =>
    (promoteSignedChildPcztsToPendingTxs key drawn currentScannedHeight remainingChildRetryHeight
      pendingTxs run).toOption
  | .replace key replacements signedChildren =>
    (replaceResignedPendingParts key replacements signedChildren run).toOption
  | .reschedule chainTipHeight minimumDelayBlocks excludedTxid offsets =>
    (rescheduleOverduePendingTxsWithOptions chainTipHeight minimumDelayBlocks excludedTxid offsets
      run).toOption
  | .applyAccepted txid remoteHeight scheduleUpdates =>
    (applyAcceptedMigrationOutboxReceipt txid remoteHeight scheduleUpdates run).toOption
  | .markNoncanonical chain chainTipHeight =>
    (markDuePartsWithNoncanonicalBroadcastHeightForResign chain chainTipHeight run).toOption.map
      Prod.fst
  | .markExpired chain chainTipHeight =>
    some (markExpiredPendingPartsForResign chain chainTipHeight run).1
  | .markBroadcasted txid => some (markPendingBroadcasted txid run)
  | .reconcile chain => some (reconcileRunConfirmations chain run)
  | .amend amended =>
    if amended.pending.map PendingTx.scheduleColumns =
        run.pending.map PendingTx.scheduleColumns then
      some amended
    else none

/-- The operations on a run from its creation. -/
def system (initial : Run) : Transition Run Event := ⟨initial, step⟩

/-- The reconciliation of an operation demotes no part across a bucket. -/
def Admissible (run : Run) : Event → Prop
  | .markNoncanonical chain _ | .markExpired chain _ | .reconcile chain => NoCrossing chain run
  | _ => True

theorem amend_wellScheduled {rows' : List PendingTx} (hrows : WellScheduled rows)
    (h : rows'.map PendingTx.scheduleColumns = rows.map PendingTx.scheduleColumns) :
    WellScheduled rows' := by
  have hcolumn {α : Type} (column : PendingTx → α)
      (hsame : ∀ row, column row.scheduleColumns = column row) :
      rows'.map column = rows.map column := by
    have hcomp : column ∘ PendingTx.scheduleColumns = column := funext hsame
    rw [← hcomp, ← List.map_map, h, List.map_map]
  refine ⟨hrows.keyed.of_columns (hcolumn _ fun _ => rfl) (hcolumn _ fun _ => rfl),
    fun row' hrow' => ?_⟩
  have hmem : row'.scheduleColumns ∈ rows.map PendingTx.scheduleColumns :=
    h ▸ List.mem_map_of_mem hrow'
  obtain ⟨row, hrow, hsame⟩ := List.mem_map.1 hmem
  have honSchedule : row.scheduleColumns.OnSchedule := hrows.onSchedule row hrow
  rw [hsame] at honSchedule
  exact honSchedule

theorem toOption_eq_some {α ε : Type} {result : Except ε α} {a : α} :
    result.toOption = some a ↔ result = .ok a := by
  cases result <;> simp [Except.toOption]

theorem step_wellScheduled {event : Event} (hrows : WellScheduled run.pending)
    (hadmissible : Admissible run event) (h : step run event = some run') :
    WellScheduled run'.pending := by
  cases event with
  | insert key drawn pendingTxs =>
    have hinsert := toOption_eq_some.1 h
    unfold insertPendingTxs at hinsert
    split_ifs at hinsert
    · obtain rfl := Except.ok.inj hinsert
      exact hrows
    · exact insert_wellScheduled hrows hinsert
  | promote key drawn currentScannedHeight remainingChildRetryHeight pendingTxs =>
    exact promote_wellScheduled hrows (toOption_eq_some.1 h)
  | replace key replacements signedChildren =>
    exact replace_wellScheduled hrows (toOption_eq_some.1 h)
  | reschedule chainTipHeight minimumDelayBlocks excludedTxid offsets =>
    exact reschedule_wellScheduled hrows (toOption_eq_some.1 h)
  | applyAccepted txid remoteHeight scheduleUpdates =>
    exact applyAccepted_wellScheduled hrows (toOption_eq_some.1 h)
  | markNoncanonical chain chainTipHeight =>
    rw [step, Option.map_eq_some_iff] at h
    obtain ⟨⟨marked, affected⟩, hmark, rfl⟩ := h
    exact markDue_wellScheduled hrows hadmissible (toOption_eq_some.1 hmark)
  | markExpired chain chainTipHeight =>
    obtain rfl := Option.some.inj h
    exact markForResign_wellScheduled
      (reconcileRunConfirmations_wellScheduled hrows hadmissible)
  | markBroadcasted txid =>
    obtain rfl := Option.some.inj h
    exact markPendingBroadcasted_wellScheduled hrows
  | reconcile chain =>
    obtain rfl := Option.some.inj h
    exact reconcileRunConfirmations_wellScheduled hrows hadmissible
  | amend amended =>
    simp only [step] at h
    split_ifs at h with hcolumns
    obtain rfl := Option.some.inj h
    exact amend_wellScheduled hrows hcolumns

theorem reached_wellScheduled {initial : Run} (hempty : initial.pending = [])
    (h : (system initial).Reaches Admissible run) : WellScheduled run.pending := by
  refine h.invariant (I := fun run => WellScheduled run.pending) ?_ ?_
  · have hpending : (system initial).init.pending = [] := hempty
    rw [hpending]
    exact ⟨⟨List.nodup_nil, List.nodup_nil⟩, nofun⟩
  · exact fun _ _ _ => step_wellScheduled

/-- In every run whose reconciliations demote no part across a bucket, scheduled parts have the
canonical expiry of their height, and what remains after marking can be handed out. -/
theorem expiry_canonical {initial : Run} (hempty : initial.pending = [])
    (h : (system initial).Reaches Admissible run) :
    (∀ row ∈ run.pending, row.status = .scheduled → ∃ height,
      row.scheduledHeight = some height ∧ Canonical height row.expiryHeight) ∧
    ∀ chain chainTipHeight run' affected, NoCrossing chain run →
      markDuePartsWithNoncanonicalBroadcastHeightForResign chain chainTipHeight run =
        .ok (run', affected) →
      (∀ key txid height,
        exportScheduledMigrationOutbox key run' ≠ .error (.notCanonical txid height)) ∧
      (∀ chain', NoCrossing chain' run' → ∀ chainTipHeight' key txid height,
        (duePendingTxs chain' chainTipHeight' key run').2 ≠ .error (.notCanonical txid height)) ∧
      (run.phase.releasesWalletLocks = false → NoCrossing chain run' ∧
        ∀ key due, (duePendingTxs chain chainTipHeight key run').2 = .ok due →
          ∀ part ∈ due, ∃ row ∈ run'.pending, row.txid = part.txid ∧
            chainTipHeight < row.expiryHeight) := by
  have hrows := reached_wellScheduled hempty h
  refine ⟨hrows.onSchedule, fun chain chainTipHeight run' affected hcrossing hmark => ?_⟩
  have hrows' := markDue_wellScheduled hrows hcrossing hmark
  refine ⟨fun key => export_notCanonical hrows', fun chain' hcrossing' chainTipHeight' key =>
    duePendingTxs_notCanonical hrows' hcrossing', fun hphase => ?_⟩
  have htracked := markDue_tracked hphase hmark
  refine ⟨fun _ row hrow hreorged => ?_, fun key due hdue part hpart => ?_⟩
  · rw [← htracked row hrow, reorged_reconcile] at hreorged
    cases hreorged
  · have hsame : (reconcileRunConfirmations chain run').pending = run'.pending := by
      rw [reconcileRunConfirmations, settleRun_pending, reconcileRows_fixed htracked]
    have hselected : ∀ row ∈ ((reconcileRunConfirmations chain run').pending.filter fun row =>
        row.status = .scheduled ∧ row.dueAt chainTipHeight).mergeSort broadcastsBefore,
        row ∈ run'.pending ∧ row.status = .scheduled ∧ row.dueAt chainTipHeight := by
      intro row hrow
      obtain ⟨hmem, hselected⟩ := List.mem_filter.1 (List.mem_mergeSort.1 hrow)
      exact ⟨hsame ▸ hmem, of_decide_eq_true hselected⟩
    have hcanonical := fun row hrow => (hrows'.onSchedule row (hselected row hrow).1).canonical
      (hselected row hrow).2.1
    obtain ⟨row, hrow, htxid⟩ := (selectDue_spec hcanonical).2 due hdue part hpart
    obtain ⟨hmem, hstatus, hdueAt⟩ := hselected row hrow
    exact ⟨row, hmem, htxid, markDue_unexpired hmark hmem hstatus hdueAt⟩

instance (chain : ScannedChain) (run : Run) : Decidable (NoCrossing chain run) :=
  inferInstanceAs (Decidable (_ → ∀ row ∈ run.pending, _ → _))

instance (run : Run) : (event : Event) → Decidable (Admissible run event)
  | .markNoncanonical chain _ | .markExpired chain _ | .reconcile chain =>
    inferInstanceAs (Decidable (NoCrossing chain run))
  | .insert .. | .promote .. | .replace .. | .reschedule .. | .applyAccepted .. |
    .markBroadcasted .. | .amend .. => inferInstanceAs (Decidable True)

/-- A run that is ready, before its part is inserted. -/
def readyRun : Run :=
  { sampleRun .scheduled with
    phase := .readyToMigrate
    targetValues := [100]
    schedule := [⟨some 0, 100, 21⟩]
    signedScheduleOriginHeight := none
    pending := [] }

/-- A part whose construction target and scheduled height lie in different buckets. -/
def crossingPart : PendingMigrationTxInsert where
  partIndex := 0
  txid := "c0"
  rawTx := []
  targetHeight := 34550
  anchorBoundaryHeight := some 34500
  expiryHeight := 103680
  scheduledHeight := 34570
  value := 100
  fee := 10
  selectedNote := ("aa", 0)

/-- A key that stores transactions as they are. -/
def sampleKey : PayloadKey where
  encrypt _ := .ok "raw"
  decrypt _ := .ok []

/-- Nothing is included. -/
def emptyChain : ScannedChain := { sampleChain 0 with identity := fun _ => none }

/-- A part whose construction target lies in the bucket of its scheduled height is mined and leaves
the chain again. -/
def demotion : List Event :=
  [.insert sampleKey [] [{ crossingPart with targetHeight := 34565 }], .reconcile (sampleChain 1),
    .reconcile emptyChain]

theorem expiry_canonical_sample : ∃ run,
    (system readyRun).runWhile Admissible readyRun demotion = some run ∧
    run.pending.map (fun row => (row.status, row.scheduledHeight, row.expiryHeight)) =
      [(.scheduled, some 34565, 103680)] ∧
    (∀ row ∈ run.pending, row.status = .scheduled → ∃ height,
      row.scheduledHeight = some height ∧ Canonical height row.expiryHeight) ∧
    ∀ run' affected,
      markDuePartsWithNoncanonicalBroadcastHeightForResign emptyChain 34580 run =
        .ok (run', affected) → ∀ key txid height,
      exportScheduledMigrationOutbox key run' ≠ .error (.notCanonical txid height) := by
  have hrows : ((system readyRun).runWhile Admissible readyRun demotion).any fun run =>
      NoCrossing emptyChain run ∧
      run.pending.map (fun row => (row.status, row.scheduledHeight, row.expiryHeight)) =
        [(.scheduled, some 34565, 103680)] := by decide +kernel
  obtain ⟨run, hrun, hends⟩ := (Option.any_eq_true _ _).1 hrows
  obtain ⟨hcrossing, hscheduled⟩ := of_decide_eq_true hends
  obtain ⟨honSchedule, hmarked⟩ :=
    expiry_canonical rfl (Transition.Reaches.init.runWhile hrun)
  exact ⟨run, hrun, hscheduled, honSchedule, fun run' affected hmark =>
    (hmarked emptyChain 34580 run' affected hcrossing hmark).1⟩

/-- A part that was mined and left the chain again is scheduled in another bucket. -/
theorem reorged_part_noncanonical : ¬ ∀ run, (system readyRun).Reachable run →
    ∀ row ∈ run.pending, row.status = .scheduled → ∃ height,
      row.scheduledHeight = some height ∧ Canonical height row.expiryHeight := by
  intro h
  have hrows : ((system readyRun).run readyRun [.insert sampleKey [] [crossingPart],
      .reconcile (sampleChain 1), .reconcile emptyChain]).map (fun run => run.pending.map fun row =>
        (row.status, row.scheduledHeight, row.expiryHeight)) =
      some [(.scheduled, some 34550, 103680)] := by decide +kernel
  obtain ⟨run, hrun, hpending⟩ := Option.map_eq_some_iff.1 hrows
  obtain ⟨row, rest, hrow, hcolumns, -⟩ := List.map_eq_cons_iff.1 hpending
  obtain ⟨hstatus, hheight, hexpiry⟩ : row.status = .scheduled ∧
      row.scheduledHeight = some 34550 ∧ row.expiryHeight = 103680 := by simpa using hcolumns
  obtain ⟨height, hsome, hcanonical⟩ := h run (Transition.Reachable.run .init hrun) row
    (hrow ▸ List.mem_cons_self) hstatus
  obtain rfl := Option.some.inj (hheight.symm.trans hsome)
  rw [hexpiry] at hcanonical
  exact absurd (canonical_iff.1 hcanonical).1 (by decide)

/-- Marking does not help such a part, and the selection fails. -/
example : ((step readyRun (.insert sampleKey [] [crossingPart])).bind fun run =>
    (step run (.reconcile (sampleChain 1))).bind fun run =>
      (step run (.markNoncanonical emptyChain 34580)).map fun run =>
        match (duePendingTxs emptyChain 34580 sampleKey run).2 with
        | .error (.notCanonical txid height) => some (txid, height)
        | _ => none) = some (some ("c0", 34550)) := by decide +kernel

end VizorWallet.Migration.Store
