import VizorWallet.Migration.Reorg.Decisions

/-!
# The stage transaction of a reorg pass

## Main definitions

* `Redraws` — the pass redraws broadcast heights.
* `StageReconciled` — what the pass makes of a stage.

## Main results

* `commitStages_cases` — the transaction reconciles every stage, or a redrawn height overflows.
-/

namespace VizorWallet.Migration.Reorg

variable {chain : ChainSnapshot} {stages : List Stage}

/-! ## Redrawn heights -/

/-- A stage may have been rescheduled, to no earlier than a height. -/
structure Rescheduled (height : ℕ) (stage stage' : Stage) (moved : Prop) : Prop where
  same : stage' = { stage with broadcastNotBeforeHeight := stage'.broadcastNotBeforeHeight }
  kept : ¬ moved → stage' = stage
  raised : moved → ∃ h, stage'.broadcastNotBeforeHeight = some h ∧ height ≤ h ∧
    stage.scheduledHeight ≤ h ∧ stage.broadcastNotBeforeHeight.getD 0 ≤ h

theorem rescheduleRemaining_error {precedingHeight : ℕ} {delays : ℕ → ℕ} {remaining : List Stage}
    {error : String} (h : rescheduleRemaining precedingHeight delays remaining stages =
      .error error) : error = "Migration preparation catch-up height overflow" := by
  induction remaining generalizing precedingHeight delays stages with
  | nil => cases h
  | cons next remaining ih =>
    rw [rescheduleRemaining] at h
    obtain h | ⟨_, -, h⟩ := bind_eq_error.1 h
    · exact (ensure_eq_error.1 h).2.symm
    · exact ih h

/-- Rescheduling raises the remaining stages and leaves the others alone. -/
theorem rescheduleRemaining_spec {precedingHeight : ℕ} {delays : ℕ → ℕ}
    {remaining result : List Stage} (hindices : (stages.map Stage.stageIndex).Nodup)
    (hnodup : (remaining.map Stage.stageIndex).Nodup)
    (hremaining : ∀ next ∈ remaining, next ∈ stages ∧ next.state.remaining)
    (h : rescheduleRemaining precedingHeight delays remaining stages = .ok result) :
    List.Forall₂ (fun stage stage' => Rescheduled precedingHeight stage stage'
      (stage ∈ remaining)) stages result := by
  induction remaining generalizing precedingHeight delays stages with
  | nil =>
    cases h
    exact List.forall₂_same.2 fun stage _ => ⟨rfl, fun _ => rfl, fun hmem => by cases hmem⟩
  | cons next rest ih =>
    simp only [rescheduleRemaining, bind_eq_ok, ensure_eq_ok] at h
    obtain ⟨-, -, h⟩ := h
    set effective := max (max (precedingHeight + delays 0) next.scheduledHeight)
      (next.broadcastNotBeforeHeight.getD 0) with heffective
    set move : Stage → Stage := fun stage =>
      if stage.stageIndex = next.stageIndex ∧ stage.state.remaining then
        { stage with broadcastNotBeforeHeight := some effective }
      else stage with hmove
    obtain ⟨hnext, hstate⟩ := hremaining next List.mem_cons_self
    rw [List.map_cons, List.nodup_cons] at hnodup
    have hindex (stage : Stage) : (move stage).stageIndex = stage.stageIndex := by
      simp only [hmove]
      split_ifs <;> rfl
    have hother {stage : Stage} (hne : stage.stageIndex ≠ next.stageIndex) :
        move stage = stage := if_neg fun hsame => hne hsame.1
    have hne {stage : Stage} (hstage : stage ∈ rest) : stage.stageIndex ≠ next.stageIndex :=
      fun hsame => hnodup.1 (hsame ▸ List.mem_map_of_mem hstage)
    have hmoved : (stages.map move).map Stage.stageIndex = stages.map Stage.stageIndex := by
      rw [List.map_map]
      exact List.map_congr_left fun stage _ => hindex stage
    have hrest : ∀ stage ∈ rest, stage ∈ stages.map move ∧ stage.state.remaining := by
      intro stage hstage
      obtain ⟨hmem, hstage'⟩ := hremaining stage (List.mem_cons_of_mem _ hstage)
      exact ⟨List.mem_map.2 ⟨stage, hmem, hother (hne hstage)⟩, hstage'⟩
    have hstages := ih (hmoved ▸ hindices) hnodup.2 hrest h
    rw [List.forall₂_map_left_iff] at hstages
    have hall := (List.forall₂_and_left stages result).2 ⟨fun stage hstage => hstage, hstages⟩
    refine hall.imp ?_
    rintro stage stage' ⟨hstage, hresult⟩
    by_cases hsame : stage.stageIndex = next.stageIndex
    · -- The stage that this round moves is not moved again.
      obtain rfl := List.inj_on_of_nodup_map hindices hstage hnext hsame
      have hmoveSelf : move stage =
          { stage with broadcastNotBeforeHeight := some effective } := if_pos ⟨rfl, hstate⟩
      have hkept := hresult.kept fun hmem => hne hmem (hindex stage)
      rw [hmoveSelf] at hkept
      subst hkept
      refine ⟨rfl, fun hnot => absurd List.mem_cons_self hnot, fun _ => ⟨effective, rfl, ?_⟩⟩
      omega
    · rw [hother hsame] at hresult
      have hmem : stage ∈ next :: rest ↔ stage ∈ rest := by
        rw [List.mem_cons, or_iff_right]
        rintro rfl
        exact hsame rfl
      rw [hmem]
      refine ⟨hresult.same, hresult.kept, fun hmoved => ?_⟩
      obtain ⟨height, hheight, hle, hscheduled, hold⟩ := hresult.raised hmoved
      exact ⟨height, hheight, by omega, hscheduled, hold⟩

theorem rerandomize_cases (chainTipHeight : ℕ) (delays : ℕ → ℕ)
    (policy : PreparationTimingPolicy) (hindices : (stages.map Stage.stageIndex).Nodup) :
    (∃ result, rerandomizeRemainingPreparationBroadcastHeights chainTipHeight delays policy stages =
      .ok result ∧ List.Forall₂ (fun stage stage' => Rescheduled chainTipHeight stage stage'
        (policy = .zip318Spaced ∧ stage.state.remaining)) stages result) ∨
      policy = .zip318Spaced ∧
      rerandomizeRemainingPreparationBroadcastHeights chainTipHeight delays policy stages =
        .error "Migration preparation catch-up height overflow" := by
  cases policy with
  | immediate =>
    refine .inl ⟨stages, rfl, List.forall₂_same.2 fun stage _ => ⟨rfl, fun _ => rfl, ?_⟩⟩
    rintro ⟨hpolicy, -⟩
    cases hpolicy
  | zip318Spaced =>
    set remaining := (stages.filter fun stage => stage.state.remaining).mergeSort broadcastsBefore
      with hremaining
    have hperm : remaining.Perm (stages.filter fun stage => stage.state.remaining) :=
      List.mergeSort_perm _ _
    have hmem {stage : Stage} : stage ∈ remaining ↔ stage ∈ stages ∧ stage.state.remaining := by
      rw [hperm.mem_iff, List.mem_filter]
    have hunfold : rerandomizeRemainingPreparationBroadcastHeights chainTipHeight delays
        .zip318Spaced stages = rescheduleRemaining chainTipHeight delays remaining stages := rfl
    rw [hunfold]
    cases hresult : rescheduleRemaining chainTipHeight delays remaining stages with
    | error error => exact .inr ⟨rfl, congrArg _ (rescheduleRemaining_error hresult)⟩
    | ok result =>
      have hnodup : (remaining.map Stage.stageIndex).Nodup :=
        ((hperm.map _).nodup_iff).2 (hindices.sublist (List.filter_sublist.map _))
      have hstages := rescheduleRemaining_spec hindices hnodup (fun _ => hmem.1) hresult
      have hall := (List.forall₂_and_left stages result).2 ⟨fun _ hstage => hstage, hstages⟩
      refine .inl ⟨result, rfl, hall.imp fun stage stage' ⟨hstage, hrescheduled⟩ => ?_⟩
      have hmoved : stage ∈ remaining ↔
          PreparationTimingPolicy.zip318Spaced = .zip318Spaced ∧ stage.state.remaining := by
        rw [hmem]
        simp [hstage]
      rwa [hmoved] at hrescheduled

/-! ## The transaction -/

/-- A stage that waits for its broadcast is on the chain, in a run that spaces its broadcasts. -/
def Redraws (chain : ChainSnapshot) (run : Run) : Prop :=
  run.preparationTimingPolicy = .zip318Spaced ∧ ∃ stage ∈ run.stages,
    (chain stage.expectedTxid).isSome ∧ ∃ rawTx, stage.state = .pending rawTx

/-- What a pass makes of a stage. -/
structure StageReconciled (chain : ChainSnapshot) (chainTipHeight : ℕ) (run : Run)
    (stage stage' : Stage) : Prop where
  confirmed : ∀ identity, chain stage.expectedTxid = some identity →
    stage'.state = .confirmed stage.state.rawTx identity
  invalid : stage.Invalid chain run.stages → stage'.state = .awaitingInputs
  other : chain stage.expectedTxid = none → ¬ stage.Invalid chain run.stages →
    stage'.state = stage.state
  rest : stage' = { stage with
    state := stage'.state, broadcastNotBeforeHeight := stage'.broadcastNotBeforeHeight }
  kept : ¬ (Redraws chain run ∧ stage'.state.remaining) →
    stage'.broadcastNotBeforeHeight = stage.broadcastNotBeforeHeight
  raised : Redraws chain run → stage'.state.remaining → ∃ h,
    stage'.broadcastNotBeforeHeight = some h ∧ chainTipHeight ≤ h ∧
      stage.scheduledHeight ≤ h ∧ stage.broadcastNotBeforeHeight.getD 0 ≤ h

theorem mem_invalidStages_of_mem {stage : Stage} (hstage : stage ∈ stages)
    (hnodup : (stages.map Stage.expectedTxid).Nodup) :
    stage.expectedTxid ∈ (plan chain stages).invalidStages ↔ stage.Invalid chain stages := by
  rw [mem_invalidStages]
  constructor
  · rintro ⟨other, hother, htxid, hinvalid⟩
    rwa [← List.inj_on_of_nodup_map hnodup hother hstage htxid]
  · exact fun hinvalid => ⟨stage, hstage, rfl, hinvalid⟩

/-- A settled stage, whose broadcast height may have been redrawn, is reconciled. -/
theorem stageReconciled_of_rescheduled {run : Run} {chainTipHeight : ℕ} {stage stage' : Stage}
    (hnodup : (run.stages.map Stage.expectedTxid).Nodup) (hstage : stage ∈ run.stages)
    (h : Rescheduled chainTipHeight (stage.settle chain (plan chain run.stages)) stage'
      (Redraws chain run ∧ (stage.settle chain (plan chain run.stages)).state.remaining)) :
    StageReconciled chain chainTipHeight run stage stage' := by
  set settled := stage.settle chain (plan chain run.stages) with hsettled
  have hinvalid := @mem_invalidStages_of_mem chain _ _ hstage hnodup
  have hstate : stage'.state = settled.state := by rw [h.same]
  have hsettledEq : settled = { stage with state := settled.state } := settle_eq stage
  have hscheduled : settled.scheduledHeight = stage.scheduledHeight := by rw [hsettledEq]
  have hbroadcast : settled.broadcastNotBeforeHeight = stage.broadcastNotBeforeHeight := by
    rw [hsettledEq]
  refine ⟨fun identity hchain => ?_, fun hstageInvalid => ?_, fun hchain hvalid => ?_, ?_,
    fun hnot => ?_, fun hredraws hremaining => ?_⟩
  · have hvalid : ¬ stage.Invalid chain run.stages := fun hstageInvalid => by
      simp [hstageInvalid.1] at hchain
    rw [hstate, hsettled, Stage.settle, if_neg (mt hinvalid.1 hvalid), hchain, Option.elim_some,
      Stage.confirm]
  · rw [hstate, hsettled, Stage.settle, if_pos (hinvalid.2 hstageInvalid), Stage.reset]
  · rw [hstate, hsettled, Stage.settle, if_neg (mt hinvalid.1 hvalid), hchain, Option.elim_none]
  · rw [h.same, hsettledEq]
  · rw [hstate] at hnot
    rw [h.kept hnot, hbroadcast]
  · rw [hstate] at hremaining
    rw [← hscheduled, ← hbroadcast]
    exact h.raised ⟨hredraws, hremaining⟩

theorem any_isPending : ((plan chain stages).recoveredPendingTxids.any (isPending stages)) ↔
    ∃ stage ∈ stages, (chain stage.expectedTxid).isSome ∧
      ∃ rawTx, stage.state = .pending rawTx := by
  rw [List.any_eq_true]
  constructor
  · rintro ⟨txid, htxid, -⟩
    obtain ⟨stage, hstage, rfl, hchain, hpending⟩ := mem_recoveredPendingTxids.1 htxid
    exact ⟨stage, hstage, hchain, hpending⟩
  · rintro ⟨stage, hstage, hchain, rawTx, hstate⟩
    refine ⟨stage.expectedTxid, mem_recoveredPendingTxids.2 ⟨stage, hstage, rfl, hchain, rawTx,
      hstate⟩, List.any_eq_true.2 ⟨stage, hstage, ?_⟩⟩
    simp [hstate, StageState.remaining]

/-- The stage transaction reconciles every stage, unless a redrawn height overflows. -/
theorem commitStages_cases {run : Run} (chainTipHeight : ℕ) (delays : ℕ → ℕ)
    (hphase : run.phase.releasesWalletLocks = false)
    (htxids : (run.stages.map Stage.expectedTxid).Nodup)
    (hindices : (run.stages.map Stage.stageIndex).Nodup) :
    (∃ stages', commitStages chainTipHeight delays (plan chain run.stages) run =
      .ok { run with stages := stages' } ∧
      List.Forall₂ (StageReconciled chain chainTipHeight run) run.stages stages') ∨
    Redraws chain run ∧ commitStages chainTipHeight delays (plan chain run.stages) run =
      .error "Migration preparation catch-up height overflow" := by
  have hsettle := @settle_stages chain _ htxids
  obtain ⟨reset, hreset, hconfirm⟩ := bind_eq_ok.1 hsettle
  set settled := run.stages.map (Stage.settle chain (plan chain run.stages)) with hsettled
  have hsettledIndices : (settled.map Stage.stageIndex).Nodup := by
    rw [hsettled, List.map_map]
    simpa [Function.comp_def] using hindices
  have hlift {moved : Stage → Prop} {stages' : List Stage}
      (hmoved : ∀ stage ∈ run.stages, moved (stage.settle chain (plan chain run.stages)) ↔
        Redraws chain run ∧
          (stage.settle chain (plan chain run.stages)).state.remaining)
      (h : List.Forall₂ (fun stage stage' => Rescheduled chainTipHeight stage stage'
        (moved stage)) settled stages') :
      List.Forall₂ (StageReconciled chain chainTipHeight run) run.stages stages' := by
    rw [hsettled, List.forall₂_map_left_iff] at h
    have hall := (List.forall₂_and_left run.stages stages').2 ⟨fun _ hstage => hstage, h⟩
    refine hall.imp fun stage stage' ⟨hstage, hrescheduled⟩ => ?_
    rw [hmoved stage hstage] at hrescheduled
    exact stageReconciled_of_rescheduled htxids hstage hrescheduled
  have hcommit : commitStages chainTipHeight delays (plan chain run.stages) run =
      (if (plan chain run.stages).recoveredPendingTxids.any (isPending run.stages) then
        rerandomizeRemainingPreparationBroadcastHeights chainTipHeight delays
          run.preparationTimingPolicy settled
      else .ok settled) >>= fun stages => .ok { run with stages := stages } := by
    unfold commitStages
    rw [if_neg (by simp [hphase]), hreset, ok_bind, hconfirm, ok_bind]
    dsimp only
    split_ifs <;> rfl
  by_cases hrecovered : (plan chain run.stages).recoveredPendingTxids.any (isPending run.stages)
  · have hpending := any_isPending.1 hrecovered
    obtain ⟨stages', hresult, hstages⟩ | ⟨hpolicy, herror⟩ := rerandomize_cases chainTipHeight
      delays run.preparationTimingPolicy hsettledIndices
    · refine .inl ⟨stages', ?_, hlift (fun stage _ => ?_) hstages⟩
      · rw [hcommit, if_pos hrecovered, hresult, ok_bind]
      · simp [Redraws, hpending]
    · refine .inr ⟨⟨hpolicy, hpending⟩, ?_⟩
      rw [hcommit, if_pos hrecovered, herror]
      rfl
  · have hunmoved : List.Forall₂ (fun stage stage' => Rescheduled chainTipHeight stage stage' False)
        settled settled := List.forall₂_same.2 fun stage _ => ⟨rfl, fun _ => rfl, False.elim⟩
    refine .inl ⟨settled, ?_, hlift (fun stage _ => ?_) hunmoved⟩
    · rw [hcommit, if_neg hrecovered, ok_bind]
    · have hnot : ¬ Redraws chain run := fun hredraws => hrecovered (any_isPending.2 hredraws.2)
      simp [hnot]

end VizorWallet.Migration.Reorg
