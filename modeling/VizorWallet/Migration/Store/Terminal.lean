import VizorWallet.Library.Transition
import VizorWallet.Migration.Store.Database
import VizorWallet.Migration.Store.Expiry

/-!
# Runs that have ended

A run that is complete, retired or stopped keeps its phase, as long as no operation finds
something of it left to do.

## Main definitions

* `DatabaseEvent`, `database` — the operations on the tables of a wallet.
* `Calm` — an operation finds nothing to do in a run that has ended.
* `Absorbs` — the runs that had ended are as they were.

## Main results

* `terminal_absorbing` — calm operations keep the phase of every run that has ended.
-/

namespace VizorWallet.Migration.Store

open Reorg (Txid ChainSnapshot)

variable {run run' : Run}

/-! ## Sweeps -/

/-- The runs that had ended are as they were. -/
def Absorbs : Database → Database → Prop :=
  List.Forall₂ fun run run' => run'.runId = run.runId ∧
    (run.phase.releasesWalletLocks → run'.phase = run.phase)

theorem Absorbs.refl (db : Database) : Absorbs db db :=
  List.forall₂_same.2 fun _ _ => ⟨rfl, fun _ => rfl⟩

theorem Absorbs.trans {db₁ db₂ db₃ : Database} (h₁ : Absorbs db₁ db₂) (h₂ : Absorbs db₂ db₃) :
    Absorbs db₁ db₃ := by
  induction h₁ generalizing db₃ with
  | nil =>
    cases h₂
    exact .nil
  | cons hhead _ ih =>
    obtain ⟨hid, hphase⟩ := hhead
    cases h₂ with
    | cons hhead' htail' =>
      refine .cons ⟨hhead'.1.trans hid, fun hended => ?_⟩ (ih htail')
      have hsame := hphase hended
      rw [← hsame] at hended
      exact (hhead'.2 hended).trans hsame

/-- An operation on each run. -/
theorem absorbs_map {operation : Run → Run} {db : Database}
    (h : ∀ run ∈ db, (operation run).runId = run.runId ∧
      (run.phase.releasesWalletLocks → (operation run).phase = run.phase)) :
    Absorbs db (db.map operation) := by
  rw [Absorbs, List.forall₂_map_right_iff]
  exact List.forall₂_same.2 h

theorem absorbs_sweep {operation : Run → Run × Except String Unit} {db : Database}
    (h : ∀ run ∈ db, (operation run).1.runId = run.runId ∧
      (run.phase.releasesWalletLocks → (operation run).1.phase = run.phase)) :
    Absorbs db (sweep operation db).1 := by
  induction db with
  | nil => exact .nil
  | cons run rest ih =>
    obtain ⟨hrun, hrest⟩ := List.forall_mem_cons.1 h
    rw [sweep]
    cases hresult : operation run with
    | mk run' result =>
      rw [hresult] at hrun
      cases result with
      | ok => exact .cons hrun (ih hrest)
      | error => exact .cons hrun (Absorbs.refl rest)

/-- A sweep that succeeds has worked on every run. -/
theorem sweep_ok {operation : Run → Run × Except String Unit} {db : Database}
    (h : (sweep operation db).2 = .ok ()) :
    (sweep operation db).1 = db.map fun run => (operation run).1 := by
  induction db with
  | nil => rfl
  | cons run rest ih =>
    rw [sweep] at h ⊢
    cases hresult : operation run with
    | mk run' result =>
      rw [hresult] at h
      cases result with
      | ok => rw [List.map_cons, hresult, ih h]
      | error => cases h

/-! ## Legacy backfills -/

/-- Legacy entries with the origin, the recovered height and the expiry of each: all have canonical
heights from one origin. -/
def Recoverable (persisted : Option ℕ) (legacy : List (ℕ × Option ℕ × ℕ)) : Prop :=
  ∀ entry ∈ legacy, (∃ height, entry.2.1 = some height ∧ Canonical height entry.2.2) ∧
    persisted.all (· = entry.1) ∧ ∀ other ∈ legacy, other.1 = entry.1

def SignedChild.legacyEntry (run : Run) (child : SignedChild) : ℕ × Option ℕ × ℕ :=
  (legacyOrigin child.targetHeight,
    recoveredHeight run child.childIndex child.value child.targetHeight, child.expiryHeight)

def PendingTx.legacyEntry (run : Run) (row : PendingTx) : ℕ × Option ℕ × ℕ :=
  (legacyOrigin row.targetHeight,
    row.partIndex.bind fun partIndex => recoveredHeight run partIndex row.value row.targetHeight,
    row.expiryHeight)

def legacyChildren (run : Run) : List (ℕ × Option ℕ × ℕ) :=
  (run.signedChildren.filter (SignedChild.isLegacy run)).map (SignedChild.legacyEntry run)

/-- The origin that the legacy children leave. -/
def originOfChildren (run : Run) : Option ℕ :=
  run.signedScheduleOriginHeight <|> (legacyChildren run).head?.map Prod.fst

def legacyRows (run : Run) : List (ℕ × Option ℕ × ℕ) :=
  ((backfillPendingPartIndices run).pending.filter
    (PendingTx.isLegacy (originOfChildren run))).map (PendingTx.legacyEntry run)

/-- Every legacy child and row of the run gets a height. -/
def LegacyRecoverable (run : Run) : Prop :=
  run.schedule = [] ∨ Recoverable run.signedScheduleOriginHeight (legacyChildren run) ∧
    Recoverable (originOfChildren run) (legacyRows run)

theorem Recoverable.perm {persisted : Option ℕ} {legacy legacy' : List (ℕ × Option ℕ × ℕ)}
    (h : Recoverable persisted legacy) (hperm : legacy'.Perm legacy) :
    Recoverable persisted legacy' := by
  intro entry hentry
  obtain ⟨hheight, horigin, hsame⟩ := h entry (hperm.mem_iff.1 hentry)
  exact ⟨hheight, horigin, fun other hother => hsame other (hperm.mem_iff.1 hother)⟩

/-- What is left after the first entry belongs to its origin. -/
theorem Recoverable.tail {persisted : Option ℕ} {entry : ℕ × Option ℕ × ℕ}
    {legacy : List (ℕ × Option ℕ × ℕ)} (h : Recoverable persisted (entry :: legacy)) :
    Recoverable (some entry.1) legacy := by
  intro other hother
  obtain ⟨hheight, -, hsame⟩ := h other (List.mem_cons_of_mem entry hother)
  refine ⟨hheight, ?_, fun third hthird => hsame third (List.mem_cons_of_mem entry hthird)⟩
  simpa using hsame entry List.mem_cons_self

/-- The origin after the entries does not depend on their order. -/
theorem Recoverable.head {persisted : Option ℕ} {legacy legacy' : List (ℕ × Option ℕ × ℕ)}
    (h : Recoverable persisted legacy) (hperm : legacy'.Perm legacy) :
    legacy'.head?.map Prod.fst = legacy.head?.map Prod.fst := by
  cases legacy' with
  | nil => rw [hperm.nil_eq]
  | cons entry' rest' =>
    cases legacy with
    | nil => cases hperm.eq_nil
    | cons entry rest =>
      have hmem : entry' ∈ entry :: rest := hperm.mem_iff.1 List.mem_cons_self
      have hsame := (h entry List.mem_cons_self).2.2 entry' hmem
      simp [hsame]

/-- An origin that agrees with the persisted one. -/
theorem orElse_origin {persisted : Option ℕ} {origin : ℕ} (h : persisted.all (· = origin)) :
    (persisted <|> some origin) = some origin := by
  cases persisted with
  | none => rfl
  | some other =>
    obtain rfl : other = origin := by simpa using h
    rfl

theorem recoverChildren_recoverable {state : SignedBackfill} {children : List SignedChild}
    (h : Recoverable state.recoveredOrigin (children.map (SignedChild.legacyEntry run))) :
    ∃ rows, recoverChildren run state children = (⟨rows, state.recoveredOrigin <|>
      (children.map (SignedChild.legacyEntry run)).head?.map Prod.fst, state.invalidChildren⟩,
      .ok ()) := by
  induction children generalizing state with
  | nil =>
    refine ⟨state.children, ?_⟩
    cases horigin : state.recoveredOrigin <;> simp [recoverChildren, ← horigin]
  | cons child rest ih =>
    rw [List.map_cons] at h ⊢
    obtain ⟨⟨height, hheight, hcanonical⟩, horigin, -⟩ := h _ List.mem_cons_self
    have hheight' : recoveredHeight run child.childIndex child.value child.targetHeight =
        some height := hheight
    have hcanonical' : zip318CanonicalMigrationExpiryHeight height = .ok child.expiryHeight :=
      hcanonical
    have hany : state.recoveredOrigin.any (· ≠ legacyOrigin child.targetHeight) = false := by
      have horigin' : state.recoveredOrigin.all (· = legacyOrigin child.targetHeight) := horigin
      cases hstate : state.recoveredOrigin <;> simp_all
    have hchild : recoverChild run state child = ({ state with
        children := state.children.map fun other =>
          if other.messageId = child.messageId then { other with scheduledHeight := some height }
          else other
        recoveredOrigin := some (legacyOrigin child.targetHeight) }, .ok ()) := by
      rw [recoverChild, hheight']
      dsimp only
      rw [hany, hcanonical']
      simp
    obtain ⟨rows, hrows⟩ := @ih { state with
      children := state.children.map fun other =>
        if other.messageId = child.messageId then { other with scheduledHeight := some height }
        else other
      recoveredOrigin := some (legacyOrigin child.targetHeight) } h.tail
    refine ⟨rows, ?_⟩
    rw [recoverChildren, hchild]
    dsimp only
    rw [hrows, List.head?_cons, Option.map_some, orElse_origin horigin]
    rfl

/-- Recoverable children leave the phase alone. -/
theorem backfillSigned_recoverable (hschedule : run.schedule ≠ [])
    (h : Recoverable run.signedScheduleOriginHeight (legacyChildren run)) :
    ∃ children, backfillLegacySignedScheduleMetadata run =
      ({ run with
          signedChildren := children
          signedScheduleOriginHeight := originOfChildren run }, .ok ()) := by
  have hperm := List.mergeSort_perm (run.signedChildren.filter (SignedChild.isLegacy run))
    (fun a b => decide (a.childIndex < b.childIndex ∨
      a.childIndex = b.childIndex ∧ a.messageId ≤ b.messageId))
  have hentries := hperm.map (SignedChild.legacyEntry run)
  obtain ⟨rows, hrows⟩ := @recoverChildren_recoverable run
    ⟨run.signedChildren, run.signedScheduleOriginHeight, []⟩ _ (h.perm hentries)
  refine ⟨rows, ?_⟩
  rw [backfillLegacySignedScheduleMetadata, if_neg (by simpa using hschedule)]
  dsimp only
  rw [hrows]
  dsimp only
  have hagain : (run.signedScheduleOriginHeight <|> run.signedScheduleOriginHeight <|>
      (legacyChildren run).head?.map Prod.fst) = originOfChildren run := by
    rw [originOfChildren]
    cases run.signedScheduleOriginHeight <;> rfl
  rw [h.head hentries, if_pos List.isEmpty_nil, hagain]

/-- A row whose height was recovered under its origin and within its expiry is accepted. -/
theorem backfillLegacyRow_accept {row : PendingTx} {height : ℕ}
    (horigin : run.signedScheduleOriginHeight.any (· ≠ legacyOrigin row.targetHeight) = false)
    (hheight : (row.partIndex.bind fun partIndex =>
      recoveredHeight run partIndex row.value row.targetHeight) = some height)
    (hcanonical : zip318CanonicalMigrationExpiryHeight height = .ok row.expiryHeight) :
    backfillLegacyRow run row = (acceptLegacyRow height row run, .ok ()) := by
  fun_cases backfillLegacyRow run row
  all_goals simp_all

theorem backfillLegacyRow_runId {row : PendingTx} :
    (backfillLegacyRow run row).1.runId = run.runId := by
  fun_cases backfillLegacyRow run row <;> rfl

/-- Recoverable rows leave the phase alone. -/
theorem backfillLegacyRows_recoverable {rows : List PendingTx}
    (h : Recoverable run.signedScheduleOriginHeight (rows.map (PendingTx.legacyEntry run))) :
    (backfillLegacyRows run rows).1.phase = run.phase := by
  induction rows generalizing run with
  | nil => rfl
  | cons row rest ih =>
    rw [List.map_cons] at h
    obtain ⟨⟨height, hheight, hcanonical⟩, horigin, -⟩ := h _ List.mem_cons_self
    have hheight' : (row.partIndex.bind fun partIndex =>
        recoveredHeight run partIndex row.value row.targetHeight) = some height := hheight
    have hcanonical' : zip318CanonicalMigrationExpiryHeight height = .ok row.expiryHeight :=
      hcanonical
    have horigin' : run.signedScheduleOriginHeight.all (· = legacyOrigin row.targetHeight) :=
      horigin
    have hany : run.signedScheduleOriginHeight.any (· ≠ legacyOrigin row.targetHeight) = false := by
      cases horigin'' : run.signedScheduleOriginHeight <;> simp_all
    have hrow := backfillLegacyRow_accept hany hheight' hcanonical'
    rw [backfillLegacyRows, hrow]
    dsimp only
    have htail : Recoverable (acceptLegacyRow height row run).signedScheduleOriginHeight
        (rest.map (PendingTx.legacyEntry (acceptLegacyRow height row run))) := by
      have hsome : (acceptLegacyRow height row run).signedScheduleOriginHeight =
          some (legacyOrigin row.targetHeight) := orElse_origin horigin'
      rw [hsome]
      exact h.tail
    exact ih htail

theorem backfillLegacyRows_runId {rows : List PendingTx} :
    (backfillLegacyRows run rows).1.runId = run.runId := by
  induction rows generalizing run with
  | nil => rfl
  | cons row rest ih =>
    have hrow := @backfillLegacyRow_runId run row
    rw [backfillLegacyRows]
    split
    · rename_i hresult
      rw [hresult] at hrow
      exact ih.trans hrow
    · rename_i hresult
      rw [hresult] at hrow
      exact hrow

theorem backfillPending_recoverable (h : run.schedule = [] ∨
    Recoverable run.signedScheduleOriginHeight ((run.pending.filter
      (PendingTx.isLegacy run.signedScheduleOriginHeight)).map (PendingTx.legacyEntry run))) :
    (backfillLegacyPendingScheduleMetadata run).1.phase = run.phase := by
  unfold backfillLegacyPendingScheduleMetadata
  split_ifs with hschedule
  · rfl
  · obtain hempty | hrecoverable := h
    · simp [hempty] at hschedule
    · exact backfillLegacyRows_recoverable
        (hrecoverable.perm ((List.mergeSort_perm _ _).map (PendingTx.legacyEntry run)))

theorem backfillPending_runId :
    (backfillLegacyPendingScheduleMetadata run).1.runId = run.runId := by
  unfold backfillLegacyPendingScheduleMetadata
  split_ifs
  · rfl
  · exact backfillLegacyRows_runId

theorem backfillSigned_runId : (backfillLegacySignedScheduleMetadata run).1.runId = run.runId := by
  unfold backfillLegacySignedScheduleMetadata
  split_ifs
  · rfl
  · dsimp only
    split
    · rfl
    · split_ifs <;> rfl

theorem backfillSigned_phase :
    (backfillLegacySignedScheduleMetadata run).1.phase = run.phase ∨
      (backfillLegacySignedScheduleMetadata run).1.phase = .readyToMigrate := by
  unfold backfillLegacySignedScheduleMetadata
  split_ifs
  · exact .inl rfl
  · dsimp only
    split
    · exact .inl rfl
    · split_ifs
      · exact .inl rfl
      · exact .inr rfl

/-- Opening the database leaves the phase of an ended run alone when its legacy rows are
recoverable. -/
theorem ensureSchema_absorbs {db : Database}
    (h : ∀ run ∈ db, run.phase.releasesWalletLocks → LegacyRecoverable run) :
    Absorbs db (ensureSchema db).1 := by
  have hparts : Absorbs db (db.map backfillPendingPartIndices) :=
    absorbs_map fun _ _ => ⟨rfl, fun _ => rfl⟩
  have hsigned : Absorbs (db.map backfillPendingPartIndices)
      (sweep backfillLegacySignedScheduleMetadata (db.map backfillPendingPartIndices)).1 := by
    refine absorbs_sweep (List.forall_mem_map.2 fun run hrun =>
      ⟨backfillSigned_runId, fun hended => ?_⟩)
    obtain hempty | ⟨hchildren, -⟩ := h run hrun hended
    · rw [backfillLegacySignedScheduleMetadata, if_pos]
      exact List.isEmpty_iff.2 hempty
    · by_cases hempty : run.schedule = []
      · rw [backfillLegacySignedScheduleMetadata, if_pos]
        exact List.isEmpty_iff.2 hempty
      · obtain ⟨children, hresult⟩ :=
          @backfillSigned_recoverable (backfillPendingPartIndices run) hempty hchildren
        rw [hresult]
  rw [ensureSchema]
  cases hsweep : sweep backfillLegacySignedScheduleMetadata
      (db.map backfillPendingPartIndices) with
  | mk db₁ result =>
    rw [hsweep] at hsigned
    cases result with
    | error => exact hparts.trans hsigned
    | ok =>
      have hdb₁ : db₁ = _ := (congrArg Prod.fst hsweep).symm.trans
        (sweep_ok (congrArg Prod.snd hsweep))
      rw [List.map_map] at hdb₁
      have hpending : Absorbs db₁ (sweep backfillLegacyPendingScheduleMetadata db₁).1 := by
        refine absorbs_sweep fun run₁ hrun₁ => ⟨backfillPending_runId, fun hended => ?_⟩
        have hmem : run₁ ∈ db.map ((fun run => (backfillLegacySignedScheduleMetadata run).1) ∘
            backfillPendingPartIndices) := hdb₁ ▸ hrun₁
        obtain ⟨run, hrun, rfl⟩ := List.mem_map.1 hmem
        -- A run that the first backfill has made ready has not ended.
        have hbefore : run.phase.releasesWalletLocks := by
          obtain hsame | hready := @backfillSigned_phase (backfillPendingPartIndices run)
          · rw [Function.comp_apply, hsame] at hended
            exact hended
          · rw [Function.comp_apply, hready] at hended
            cases hended
        refine backfillPending_recoverable ?_
        by_cases hempty : run.schedule = []
        · refine .inl ?_
          rw [Function.comp_apply, backfillLegacySignedScheduleMetadata, if_pos]
          · exact hempty
          · exact List.isEmpty_iff.2 hempty
        · obtain hempty' | ⟨hchildren, hrows⟩ := h run hrun hbefore
          · exact absurd hempty' hempty
          · obtain ⟨children, hresult⟩ :=
              @backfillSigned_recoverable (backfillPendingPartIndices run) hempty hchildren
            refine .inr ?_
            rw [Function.comp_apply, hresult]
            exact hrows
      dsimp only
      cases hsweep₂ : sweep backfillLegacyPendingScheduleMetadata db₁ with
      | mk db₂ result₂ =>
        rw [hsweep₂] at hpending
        have hboth := (hparts.trans hsigned).trans hpending
        cases result₂ with
        | error => exact hboth
        | ok => exact hboth.trans (absorbs_map fun _ _ => ⟨rfl, fun _ => rfl⟩)

/-! ## Operations on one run -/

theorem resumedPhase_ended (hended : run.phase.releasesWalletLocks) :
    resumedPhase run = run.phase := by
  refine if_neg fun hwaiting => ?_
  rw [hwaiting.1] at hended
  cases hended

/-- A pass leaves an ended run alone. -/
theorem reconcileRunConfirmations_ended {chain : ScannedChain}
    (hended : run.phase.releasesWalletLocks) : reconcileRunConfirmations chain run = run := by
  rw [reconcileRunConfirmations, reconcileRows, if_pos hended]
  by_cases hsettled : Settled chain run
  · rw [settleRun_settled hsettled, completeRun, if_pos hended]
  · rw [settleRun_open hsettled, resumedPhase_ended hended]

/-- A reorg pass leaves an ended run alone. -/
theorem reconcileStages_ended {chain : ChainSnapshot} {chainTipHeight : ℕ} {delays : ℕ → ℕ}
    (hended : run.phase.releasesWalletLocks) :
    (reconcileDenominationStageChainState chain chainTipHeight delays run).1.phase = run.phase := by
  have hclean : Reorg.cleanUpChildren chain (Reorg.plan chain run.stages) run.denominations =
      run.denominations := if_pos hended
  have hcommit : Reorg.commitStages chainTipHeight delays (Reorg.plan chain run.stages)
      run.denominations = .ok run.denominations := by
    have hended' : run.denominations.phase.releasesWalletLocks := hended
    rw [Reorg.commitStages, if_pos hended']
    rfl
  have hphase : Reorg.commitPhase (Reorg.plan chain run.stages) run.denominations =
      run.denominations := if_neg fun hboth => hboth.2 hended
  have hreconcile : Reorg.reconcile chain chainTipHeight delays run.denominations =
      .ok run.denominations := by
    rw [Reorg.reconcile]
    have hstages : run.denominations.stages = run.stages := rfl
    rw [hstages, hclean, hcommit, ok_bind, hphase]
    rfl
  rw [reconcileDenominationStageChainState, hreconcile]
  rfl

theorem markForResign_calm {condition : PendingTx → Bool}
    (h : ∀ row ∈ run.pending, condition row = false) :
    (markForResign condition run).1.phase = run.phase := by
  have hcount : run.pending.countP condition = 0 :=
    List.countP_eq_zero.2 fun row hrow => by simp [h row hrow]
  simp [markForResign, hcount]

/-- A reschedule that crosses no bucket leaves the phase alone. -/
theorem reschedule_calm {chainTipHeight minimumDelayBlocks : ℕ} {excludedTxid : Option Txid}
    {offsets : Txid → ℕ}
    (hcalm : ∀ row ∈ run.pending, row.overdueAt chainTipHeight excludedTxid →
      Canonical (chainTipHeight + max (offsets row.txid) minimumDelayBlocks) row.expiryHeight)
    (h : rescheduleOverduePendingTxsWithOptions chainTipHeight minimumDelayBlocks excludedTxid
      offsets run = .ok run') : run'.phase = run.phase := by
  simp only [rescheduleOverduePendingTxsWithOptions, bind_eq_ok, mapM_eq_ok, pure_eq_ok] at h
  obtain ⟨pending, hpending, rfl⟩ := h
  have hstatus : pending.map PendingTx.status = run.pending.map PendingTx.status := by
    have hrows := (List.forall₂_and_left run.pending pending).2 ⟨fun _ hrow => hrow, hpending⟩
    refine map_eq_of_forall₂ hrows ?_
    rintro row row' ⟨hrow, hresult⟩
    split_ifs at hresult with hoverdue
    · have hcanonical : zip318CanonicalMigrationExpiryHeight
          (chainTipHeight + max (offsets row.txid) minimumDelayBlocks) = .ok row.expiryHeight :=
        hcalm row hrow hoverdue
      simp only [PendingTx.redraw, checkedAdd, bind_eq_ok, ensure_eq_ok, exists_const,
        pure_eq_ok] at hresult
      obtain ⟨_, ⟨-, rfl⟩, canonicalExpiry, hexpiry, hresult⟩ := hresult
      obtain rfl := Except.ok.inj (hcanonical.symm.trans hexpiry)
      rw [if_neg (not_not.2 rfl)] at hresult
      obtain rfl := pure_eq_ok.1 hresult
      rfl
    · obtain rfl := Except.ok.inj hresult
      rfl
  exact if_neg (not_not.2 hstatus)

/-- The accepted row has been applied already, and the updates cross no bucket. -/
structure AcceptedCalm (run : Run) (txid : Txid)
    (scheduleUpdates : List MigrationOutboxScheduleUpdate) : Prop where
  applied : ∀ row ∈ run.pending, row.txid = txid →
    row.status ≠ .scheduled ∧ row.status ≠ .needsResign
  updates : ∀ update ∈ scheduleUpdates, ∀ row ∈ run.pending, row.txid = update.itemId →
    row.status = .scheduled → Canonical update.scheduledHeight row.expiryHeight

theorem applyAccepted_calm {txid : Txid} {remoteHeight : ℕ}
    {updates : List MigrationOutboxScheduleUpdate} (hcalm : AcceptedCalm run txid updates)
    (h : applyAcceptedMigrationOutboxReceipt txid remoteHeight updates run = .ok run') :
    run'.phase = run.phase := by
  simp only [applyAcceptedMigrationOutboxReceipt, bind_eq_ok, orError_eq_ok] at h
  obtain ⟨accepted, haccepted, -, -, -, -, ⟨pending, crossed⟩, hfold, hresult⟩ := h
  have hcrossed : crossed = false := by
    refine (@foldlM_invariant _ _ _ applyUpdate (fun state : List PendingTx × Bool =>
      state.2 = false ∧ ∀ update ∈ updates, ∀ row ∈ state.1, row.txid = update.itemId →
        row.status = .scheduled → Canonical update.scheduledHeight row.expiryHeight) _ _ _
      (fun state update state' hupdate hstate hstep => ?_) ⟨rfl, hcalm.updates⟩ hfold).1
    have hmem : update ∈ updates := List.mem_mergeSort.1 hupdate
    simp only [applyUpdate, bind_eq_ok, orError_eq_ok] at hstep
    obtain ⟨row, hrow, canonicalExpiry, hcanonical, hstep⟩ := hstep
    split_ifs at hstep with hstatus hexpiry
    · have hsame : zip318CanonicalMigrationExpiryHeight update.scheduledHeight =
          .ok row.expiryHeight := hstate.2 update hmem row (List.mem_of_find?_eq_some hrow)
            (by simpa using List.find?_some hrow) hstatus
      exact absurd (Except.ok.inj (hcanonical.symm.trans hsame)) hexpiry
    · obtain rfl := pure_eq_ok.1 hstep
      refine ⟨hstate.1, fun other hother row' hrow' => ?_⟩
      obtain ⟨old, hold, rfl⟩ := mem_updateWhere.1 hrow'
      split_ifs
      · exact hstate.2 other hother old hold
      · exact hstate.2 other hother old hold
    · simp only [bind_eq_ok, ensure_eq_ok, exists_const, pure_eq_ok] at hstep
      obtain ⟨-, rfl⟩ := hstep
      exact hstate
  obtain ⟨hscheduled, hneedsResign⟩ := hcalm.applied accepted (List.mem_of_find?_eq_some haccepted)
    (by simpa using List.find?_some haccepted)
  rw [if_neg (not_or.2 ⟨hscheduled, hneedsResign⟩)] at hresult
  obtain rfl := pure_eq_ok.1 hresult
  rw [hcrossed]
  rfl

/-! ## Runs of operations -/

/-- The operations on the tables of a wallet. -/
inductive DatabaseEvent where
  | openDatabase
  | rescheduleWallet (network : WalletNetwork) (chainTipHeight : ℕ)
    (excluded : Option (String × Txid)) (offsets : Txid → ℕ)
  | applyAccepted (runId : String) (txid : Txid) (remoteHeight : ℕ)
    (scheduleUpdates : List MigrationOutboxScheduleUpdate)
  | receipt (runId : String) (chain : ScannedChain) (transactions : TransactionStore)
    (receipt : Receipt)
  | markBroadcasted (runId : String) (txid : Txid)
  | markNoncanonical (runId : String) (chain : ScannedChain) (chainTipHeight : ℕ)
  | markExpired (runId : String) (chain : ScannedChain) (chainTipHeight : ℕ)
  | reconcile (runId : String) (chain : ScannedChain)
  | reconcileStages (runId : String) (chain : ChainSnapshot) (chainTipHeight : ℕ)
    (delays : ℕ → ℕ)

def databaseStep (db : Database) : DatabaseEvent → Database
  | .openDatabase => (ensureSchema db).1
  | .rescheduleWallet network chainTipHeight excluded offsets =>
    (rescheduleWalletOverduePendingTxs network chainTipHeight excluded offsets db).1
  | .applyAccepted runId txid remoteHeight scheduleUpdates => db.onRun runId fun run =>
    (commitResult run (applyAcceptedMigrationOutboxReceipt txid remoteHeight scheduleUpdates run)).1
  | .receipt runId chain transactions receipt => db.onRun runId fun run =>
    (reconcileOrchardMigrationOutboxReceipt chain transactions receipt run).1
  | .markBroadcasted runId txid => db.onRun runId (markPendingBroadcasted txid)
  | .markNoncanonical runId chain chainTipHeight => db.onRun runId fun run =>
    (commitResult run ((markDuePartsWithNoncanonicalBroadcastHeightForResign chain chainTipHeight
      run).map Prod.fst)).1
  | .markExpired runId chain chainTipHeight => db.onRun runId fun run =>
    (markExpiredPendingPartsForResign chain chainTipHeight run).1
  | .reconcile runId chain => db.onRun runId (reconcileRunConfirmations chain)
  | .reconcileStages runId chain chainTipHeight delays => db.onRun runId fun run =>
    (reconcileDenominationStageChainState chain chainTipHeight delays run).1

def database (initial : Database) : Transition Database DatabaseEvent :=
  ⟨initial, fun db event => some (databaseStep db event)⟩

/-- No due row of the run has an expiry that is not canonical at the height. -/
def NoncanonicalCalm (run : Run) (height : ℕ) : Prop :=
  ∀ canonicalExpiry, Canonical height canonicalExpiry →
    ∀ row ∈ run.pending, row.noncanonicalAt height canonicalExpiry = false

/-- No row of the run has expired at the height. -/
def ExpiredCalm (run : Run) (chain : ScannedChain) (height : ℕ) : Prop :=
  ∀ row ∈ run.pending, row.isExpiredForResign chain height = false

/-- What a receipt about a row of a run that has ended may find there. -/
def ReceiptCalm (run : Run) (chain : ScannedChain) (receipt : Receipt) : Prop :=
  (∃ row ∈ run.pending, row.txid = receipt.txid) →
  match receipt.outcome with
  | .accepted | .acceptedEquivalent =>
    run.phase = .complete → AcceptedCalm run receipt.txid receipt.scheduleUpdates
  | .rejected => run.phase = .failedTerminal
  | .expired => ExpiredCalm run chain receipt.remoteHeight
  | .needsResign => NoncanonicalCalm run receipt.remoteHeight
  | .unsupported _ => True

/-- The operation finds nothing to do in an ended run. -/
def Calm (run : Run) : DatabaseEvent → Prop
  | .openDatabase => LegacyRecoverable run
  | .rescheduleWallet network chainTipHeight excluded offsets => run.network = network →
    ∀ row ∈ run.pending,
      row.overdueAt chainTipHeight ((excluded.filter (·.1 = run.runId)).map Prod.snd) →
      Canonical (chainTipHeight + max (offsets row.txid) 1) row.expiryHeight
  | .applyAccepted runId txid _ scheduleUpdates => run.runId = runId →
    AcceptedCalm run txid scheduleUpdates
  | .receipt runId chain _ receipt => run.runId = runId → ReceiptCalm run chain receipt
  | .markBroadcasted runId _ => run.runId ≠ runId
  | .markNoncanonical runId _ chainTipHeight => run.runId = runId →
    NoncanonicalCalm run chainTipHeight
  | .markExpired runId chain chainTipHeight => run.runId = runId →
    ExpiredCalm run chain chainTipHeight
  | .reconcile .. | .reconcileStages .. => True

/-- The operation finds nothing to do in any ended run. -/
def AllCalm (db : Database) (event : DatabaseEvent) : Prop :=
  ∀ run ∈ db, run.phase.releasesWalletLocks → Calm run event

theorem commitResult_runId {result : Except String Run}
    (h : ∀ run', result = .ok run' → run'.runId = run.runId) :
    (commitResult run result).1.runId = run.runId := by
  cases result with
  | ok run' => exact h run' rfl
  | error => rfl

theorem commitResult_phase {result : Except String Run}
    (h : ∀ run', result = .ok run' → run'.phase = run.phase) :
    (commitResult run result).1.phase = run.phase := by
  cases result with
  | ok run' => exact h run' rfl
  | error => rfl

theorem exceptMap_eq_ok {α β : Type} {x : Except String α} {f : α → β} {b : β} :
    x.map f = .ok b ↔ ∃ a, x = .ok a ∧ f a = b :=
  map_eq_ok

/-- An operation on the run with an id. -/
theorem absorbs_onRun {operation : Run → Run} {runId : String} {db : Database}
    (hid : ∀ run, (operation run).runId = run.runId)
    (hphase : ∀ run ∈ db, run.runId = runId → run.phase.releasesWalletLocks →
      (operation run).phase = run.phase) : Absorbs db (db.onRun runId operation) := by
  refine absorbs_map fun run hrun => ?_
  split_ifs with hmatches
  · exact ⟨hid run, hphase run hrun hmatches⟩
  · exact ⟨rfl, fun _ => rfl⟩

/-- An operation on the run with an id that may fail. -/
theorem absorbs_commit {result : Run → Except String Run} {runId : String} {db : Database}
    (hid : ∀ run run', result run = .ok run' → run'.runId = run.runId)
    (hphase : ∀ run ∈ db, run.runId = runId → run.phase.releasesWalletLocks →
      ∀ run', result run = .ok run' → run'.phase = run.phase) :
    Absorbs db (db.onRun runId fun run => (commitResult run (result run)).1) :=
  absorbs_onRun (fun run => commitResult_runId (hid run)) fun run hrun hmatches hended =>
    commitResult_phase (hphase run hrun hmatches hended)

theorem reschedule_runId {chainTipHeight minimumDelayBlocks : ℕ} {excludedTxid : Option Txid}
    {offsets : Txid → ℕ}
    (h : rescheduleOverduePendingTxsWithOptions chainTipHeight minimumDelayBlocks excludedTxid
      offsets run = .ok run') : run'.runId = run.runId := by
  simp only [rescheduleOverduePendingTxsWithOptions, bind_eq_ok, pure_eq_ok] at h
  obtain ⟨_, -, rfl⟩ := h
  rfl

theorem applyAccepted_runId {txid : Txid} {remoteHeight : ℕ}
    {updates : List MigrationOutboxScheduleUpdate}
    (h : applyAcceptedMigrationOutboxReceipt txid remoteHeight updates run = .ok run') :
    run'.runId = run.runId := by
  simp only [applyAcceptedMigrationOutboxReceipt, bind_eq_ok] at h
  obtain ⟨_, -, -, -, -, -, ⟨_, _⟩, -, hresult⟩ := h
  split_ifs at hresult <;> obtain rfl := pure_eq_ok.1 hresult <;> rfl

theorem reconcileRunConfirmations_runId {chain : ScannedChain} :
    (reconcileRunConfirmations chain run).runId = run.runId := by
  have hrows : (reconcileRows chain run).runId = run.runId := by
    by_cases hended : run.phase.releasesWalletLocks
    · rw [reconcileRows, if_pos hended]
    · rw [reconcileRows, if_neg hended]
  rw [← hrows, reconcileRunConfirmations]
  by_cases hsettled : Settled chain (reconcileRows chain run)
  · rw [settleRun_settled hsettled, completeRun]
    split_ifs <;> rfl
  · rw [settleRun_open hsettled]

theorem markDue_runId {chain : ScannedChain} {chainTipHeight : ℕ} {marked : Run × ℕ}
    (h : markDuePartsWithNoncanonicalBroadcastHeightForResign chain chainTipHeight run =
      .ok marked) : marked.1.runId = run.runId := by
  simp only [markDuePartsWithNoncanonicalBroadcastHeightForResign, bind_eq_ok, pure_eq_ok] at h
  obtain ⟨_, -, rfl⟩ := h
  exact reconcileRunConfirmations_runId

theorem markDue_calm {chain : ScannedChain} {chainTipHeight : ℕ} {marked : Run × ℕ}
    (hended : run.phase.releasesWalletLocks) (hcalm : NoncanonicalCalm run chainTipHeight)
    (h : markDuePartsWithNoncanonicalBroadcastHeightForResign chain chainTipHeight run =
      .ok marked) : marked.1.phase = run.phase := by
  simp only [markDuePartsWithNoncanonicalBroadcastHeightForResign, bind_eq_ok, pure_eq_ok] at h
  obtain ⟨canonicalExpiry, hcanonical, rfl⟩ := h
  rw [reconcileRunConfirmations_ended hended]
  exact markForResign_calm (hcalm canonicalExpiry hcanonical)

theorem markExpired_calm {chain : ScannedChain} {chainTipHeight : ℕ}
    (hended : run.phase.releasesWalletLocks) (hcalm : ExpiredCalm run chain chainTipHeight) :
    (markExpiredPendingPartsForResign chain chainTipHeight run).1.phase = run.phase := by
  rw [markExpiredPendingPartsForResign, reconcileRunConfirmations_ended hended]
  exact markForResign_calm hcalm

theorem receipt_runId {chain : ScannedChain} {transactions : TransactionStore} {receipt : Receipt} :
    (reconcileOrchardMigrationOutboxReceipt chain transactions receipt run).1.runId =
      run.runId := by
  have haccepted : (commitResult run (reconcileAccepted transactions receipt run)).1.runId =
      run.runId := by
    refine commitResult_runId fun run' h => ?_
    simp only [reconcileAccepted, bind_eq_ok] at h
    obtain ⟨-, -, -, -, -, -, -, -, -, -, h⟩ := h
    exact applyAccepted_runId h
  have hrejected : (commitResult run (reconcileRejected receipt run)).1.runId = run.runId := by
    refine commitResult_runId fun run' h => ?_
    simp only [reconcileRejected, bind_eq_ok, pure_eq_ok] at h
    obtain ⟨-, -, rfl⟩ := h
    split_ifs <;> rfl
  fun_cases reconcileOrchardMigrationOutboxReceipt chain transactions receipt run with
  | case2 => exact haccepted
  | case3 => exact haccepted
  | case4 => exact hrejected
  | case7 => exact reconcileRunConfirmations_runId
  | case11 _ _ _ _ _ hmarked => exact markDue_runId hmarked
  | _ => rfl

theorem receipt_calm {chain : ScannedChain} {transactions : TransactionStore} {receipt : Receipt}
    (hended : run.phase.releasesWalletLocks) (hcalm : ReceiptCalm run chain receipt) :
    (reconcileOrchardMigrationOutboxReceipt chain transactions receipt run).1.phase =
      run.phase := by
  have haccepted (happlied : run.phase = .complete →
      AcceptedCalm run receipt.txid receipt.scheduleUpdates) :
      (commitResult run (reconcileAccepted transactions receipt run)).1.phase = run.phase := by
    refine commitResult_phase fun run' h => ?_
    simp only [reconcileAccepted, bind_eq_ok, ensure_eq_ok, exists_const] at h
    obtain ⟨⟨hfailed, habandoned⟩, -, -, -, -, -, -, -, h⟩ := h
    have hcomplete : run.phase = .complete := by
      cases hphase : run.phase <;> simp_all [Phase.releasesWalletLocks]
    exact applyAccepted_calm (happlied hcomplete) h
  unfold ReceiptCalm at hcalm
  have hnamed {row : PendingTx} (hfind : run.pending.find? (·.txid = receipt.txid) = some row) :
      ∃ row ∈ run.pending, row.txid = receipt.txid :=
    ⟨row, List.mem_of_find?_eq_some hfind, by simpa using List.find?_some hfind⟩
  fun_cases reconcileOrchardMigrationOutboxReceipt chain transactions receipt run with
  | case2 _ hfind houtcome =>
    rw [houtcome] at hcalm
    exact haccepted (hcalm (hnamed hfind))
  | case3 _ hfind houtcome =>
    rw [houtcome] at hcalm
    exact haccepted (hcalm (hnamed hfind))
  | case4 _ hfind houtcome =>
    rw [houtcome] at hcalm
    have hfailed : run.phase = .failedTerminal := hcalm (hnamed hfind)
    refine commitResult_phase fun run' h => ?_
    simp only [reconcileRejected, bind_eq_ok, pure_eq_ok, hfailed, if_true] at h
    obtain ⟨-, -, rfl⟩ := h
    rfl
  | case7 _ hfind houtcome =>
    rw [houtcome] at hcalm
    exact markExpired_calm hended (hcalm (hnamed hfind))
  | case11 _ hfind houtcome _ _ hmarked =>
    rw [houtcome] at hcalm
    exact markDue_calm hended (hcalm (hnamed hfind)) hmarked
  | _ => rfl

/-- One operation. -/
theorem databaseStep_absorbs {db : Database} {event : DatabaseEvent} (hcalm : AllCalm db event) :
    Absorbs db (databaseStep db event) := by
  cases event with
  | openDatabase => exact ensureSchema_absorbs hcalm
  | rescheduleWallet network chainTipHeight excluded offsets =>
    refine absorbs_sweep fun run hrun => ?_
    split_ifs with hnetwork
    · exact ⟨commitResult_runId fun _ => reschedule_runId, fun hended =>
        commitResult_phase fun _ => reschedule_calm (hcalm run hrun hended hnetwork)⟩
    · exact ⟨rfl, fun _ => rfl⟩
  | applyAccepted runId txid remoteHeight scheduleUpdates =>
    exact absorbs_commit (fun _ _ => applyAccepted_runId) fun run hrun hmatches hended _ =>
      applyAccepted_calm (hcalm run hrun hended hmatches)
  | receipt runId chain transactions receipt =>
    exact absorbs_onRun (fun _ => receipt_runId) fun run hrun hmatches hended =>
      receipt_calm hended (hcalm run hrun hended hmatches)
  | markBroadcasted runId txid =>
    exact absorbs_onRun (fun _ => rfl) fun run hrun hmatches hended =>
      absurd hmatches (hcalm run hrun hended)
  | markNoncanonical runId chain chainTipHeight =>
    refine absorbs_commit (fun run run' h => ?_) fun run hrun hmatches hended run' h => ?_
    · obtain ⟨marked, hmarked, rfl⟩ := exceptMap_eq_ok.1 h
      exact markDue_runId hmarked
    · obtain ⟨marked, hmarked, rfl⟩ := exceptMap_eq_ok.1 h
      exact markDue_calm hended (hcalm run hrun hended hmatches) hmarked
  | markExpired runId chain chainTipHeight =>
    exact absorbs_onRun (fun _ => reconcileRunConfirmations_runId) fun run hrun hmatches hended =>
      markExpired_calm hended (hcalm run hrun hended hmatches)
  | reconcile runId chain =>
    refine absorbs_onRun (fun _ => reconcileRunConfirmations_runId)
      fun run hrun hmatches hended => ?_
    rw [reconcileRunConfirmations_ended hended]
  | reconcileStages runId chain chainTipHeight delays =>
    refine absorbs_onRun (fun run => ?_) fun run _ _ hended => reconcileStages_ended hended
    unfold reconcileDenominationStageChainState
    split <;> rfl

/-- Operations that find nothing to do in the runs that have ended keep their phases, from any
tables and in any order. -/
theorem terminal_absorbing {initial db : Database}
    (h : (database initial).Reaches AllCalm db) : Absorbs initial db := by
  refine h.invariant (I := Absorbs initial) (Absorbs.refl initial)
    fun db event db' hdb hcalm hstep => ?_
  obtain rfl := Option.some.inj hstep
  exact hdb.trans (databaseStep_absorbs hcalm)

/-- A run whose first part was broadcast, and whose second part is scheduled. -/
def openRun : Run := { sampleRun .scheduled with phase := .broadcastScheduled }

/-- A server has rejected the first part. -/
def rejectedReceipt : Receipt where
  txid := "c0"
  outcome := .rejected
  remoteHeight := 34580
  scheduleUpdates := []
  acceptedRawTransaction := none

/-- Every transaction is read as one id, and storing succeeds. -/
def sampleTransactions (txid : Txid) : TransactionStore where
  readTxid _ := .ok txid
  decryptAndStore _ := .ok ()

/-- The run as the rejected receipt leaves it. -/
def retiredRun : Run := retireRunForRebuild openRun

/-- Its scheduled part is drawn again in its bucket. -/
theorem terminal_absorbing_sample : Absorbs [retiredRun]
    (databaseStep [retiredRun] (.rescheduleWallet .main 34600 none fun _ => 9)) := by
  have hcalm : AllCalm [retiredRun] (.rescheduleWallet .main 34600 none fun _ => 9) := by
    intro run hrun _ _ row hrow _
    obtain rfl := List.mem_singleton.1 hrun
    have hexpiry : ∀ row ∈ retiredRun.pending, row.expiryHeight = 103680 := by decide
    rw [hexpiry row hrow]
    exact (by decide : Canonical 34609 103680)
  exact @terminal_absorbing [retiredRun] _ (.step .init hcalm rfl)

/-- The sweep over the overdue parts of a network revives a run that was retired. -/
theorem retired_run_revived : ¬ ∀ db, (database [openRun]).Reachable db →
    ∀ event, Absorbs db (databaseStep db event) := by
  intro h
  have hretired : databaseStep [openRun]
      (.receipt "run" emptyChain (sampleTransactions "c0") rejectedReceipt) = [retiredRun] := by
    decide +kernel
  have hreachable : (database [openRun]).Reachable [retiredRun] :=
    .step .init trivial (congrArg some hretired)
  have habsorbs := h [retiredRun] hreachable (.rescheduleWallet .main 69120 none fun _ => 1)
  have hphases : (databaseStep [retiredRun] (.rescheduleWallet .main 69120 none fun _ => 1)).map
      Run.phase = [.readyToMigrate] := by decide +kernel
  obtain ⟨run, hrun, hphase⟩ := List.map_eq_singleton_iff.1 hphases
  rw [hrun] at habsorbs
  cases habsorbs with
  | cons hhead _ =>
    have hsame := hhead.2 rfl
    rw [hphase] at hsame
    cases hsame

end VizorWallet.Migration.Store
