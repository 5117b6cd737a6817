import VizorWallet.Migration.Reorg.Children
import VizorWallet.Migration.Reorg.Stages

/-!
# A whole reorg pass

What a pass makes of the tables of a run, and what a pass makes of the tables that an interrupted
one has left.

## Main definitions

* `Reconciled` — the tables after a pass.
* `Survives` — a repeated pass ends as one that was not interrupted.

## Main results

* `reconcile_reconciles` — a pass reconciles the run with the chain.
* `survives_iff` — when the pass survives interruption.
-/

namespace VizorWallet.Migration.Reorg

variable {chain : ChainSnapshot} {chainTipHeight : ℕ} {delays : ℕ → ℕ}

/-- The tables of a run after a pass. -/
structure Reconciled (chain : ChainSnapshot) (chainTipHeight : ℕ) (run run' : Run) : Prop where
  stages : List.Forall₂ (StageReconciled chain chainTipHeight run) run.stages run'.stages
  children : run'.pendingChildren.Sublist run.pendingChildren
  deleted : ∀ child ∈ run.pendingChildren, child ∉ run'.pendingChildren ↔
    Affected chain run.stages child.selectedNoteTxid ∧ chain child.txid = none
  notes : List.Forall₂ (fun note note' =>
    (Affected chain run.stages note.txid ∧ ¬ SpentOnChain chain run.pendingChildren note →
      note' = note.reset) ∧
    (¬ (Affected chain run.stages note.txid ∧ ¬ SpentOnChain chain run.pendingChildren note) →
      note' = note)) run.preparedNotes run'.preparedNotes
  sentBack : (∃ txid, Changed chain run.stages txid) → run'.phase = .waitingDenomConfirmations
  phase : (¬ ∃ txid, Changed chain run.stages txid) → run'.phase = run.phase
  retryCleared : ResetsChildren chain run → run'.proofRetryHeight = none
  retry : ¬ ResetsChildren chain run → run'.proofRetryHeight = run.proofRetryHeight

theorem affected_nonempty {stages : List Stage} : (plan chain stages).affected.Nonempty ↔
    ∃ txid, Changed chain stages txid := by
  constructor
  · rintro ⟨txid, htxid⟩
    obtain ⟨origin, horigin, -⟩ := mem_affected.1 htxid
    exact ⟨origin, horigin⟩
  · rintro ⟨txid, htxid⟩
    exact ⟨txid, mem_affected.2 ⟨txid, htxid, .refl⟩⟩

theorem changed_of_resetsChildren {run : Run} (h : ResetsChildren chain run) :
    ∃ txid, Changed chain run.stages txid := by
  obtain ⟨_, -, ⟨origin, horigin, -⟩, -⟩ | ⟨_, -, ⟨origin, horigin, -⟩, -⟩ := h <;>
    exact ⟨origin, horigin⟩

/-- The tables after the children transaction. -/
def cleaned (chain : ChainSnapshot) (run : Run) (phase : Phase) (retry : Option ℕ) : Run :=
  { run with
    phase := phase
    proofRetryHeight := retry
    pendingChildren := remainingChildren chain (affectedTxids chain run.stages) run.pendingChildren
    preparedNotes := run.preparedNotes.map
      (PreparedNote.resetIn chain (affectedTxids chain run.stages) run.pendingChildren) }

theorem cleanUpChildren_cleaned {run : Run} (hphase : run.phase.releasesWalletLocks = false)
    (hkeyed : run.Keyed) : ∃ phase retry,
      cleanUpChildren chain (plan chain run.stages) run = cleaned chain run phase retry ∧
      phase.releasesWalletLocks = false ∧
      (ResetsChildren chain run → phase = .waitingDenomConfirmations ∧ retry = none) ∧
      (¬ ResetsChildren chain run → phase = run.phase ∧ retry = run.proofRetryHeight) := by
  obtain ⟨phase, retry, hclean, hreset, hkept⟩ :=
    @cleanUpChildren_eq chain run hphase hkeyed.children
  refine ⟨phase, retry, hclean, ?_, hreset, hkept⟩
  by_cases h : ResetsChildren chain run
  · rw [(hreset h).1]
    rfl
  · rwa [(hkept h).1]

theorem commitPhase_eq {run : Run} {p : Plan} (hphase : run.phase.releasesWalletLocks = false) :
    commitPhase p run =
      { run with
        phase := if p.affected.Nonempty then .waitingDenomConfirmations else run.phase } := by
  by_cases h : p.affected.Nonempty <;> simp [commitPhase, h, hphase]

/-- The pass after its children transaction: it succeeds with reconciled stages, or fails. -/
theorem reconcile_cases {run : Run} {phase : Phase} {retry : Option ℕ} (hkeyed : run.Keyed)
    (hclean : cleanUpChildren chain (plan chain run.stages) run = cleaned chain run phase retry)
    (hphase : phase.releasesWalletLocks = false) :
    (∃ stages', commitStages chainTipHeight delays (plan chain run.stages)
        (cleaned chain run phase retry) =
        .ok { cleaned chain run phase retry with stages := stages' } ∧
      reconcile chain chainTipHeight delays run = .ok { cleaned chain run phase retry with
        stages := stages'
        phase := if (plan chain run.stages).affected.Nonempty then .waitingDenomConfirmations
          else phase } ∧
      List.Forall₂ (StageReconciled chain chainTipHeight run) run.stages stages') ∨
    Redraws chain run ∧ reconcile chain chainTipHeight delays run =
      .error "Migration preparation catch-up height overflow" := by
  obtain ⟨stages', hcommit, hstages⟩ | ⟨hredraws, herror⟩ := @commitStages_cases chain
    (cleaned chain run phase retry) chainTipHeight delays hphase hkeyed.txids hkeyed.indices
  · refine .inl ⟨stages', hcommit, ?_, hstages.imp fun stage stage' h =>
      ⟨h.confirmed, h.invalid, h.other, h.rest, h.kept, h.raised⟩⟩
    have hcommit' : commitStages chainTipHeight delays (plan chain run.stages)
        (cleaned chain run phase retry) =
        .ok { cleaned chain run phase retry with stages := stages' } := hcommit
    rw [reconcile, hclean, hcommit', ok_bind, commitPhase_eq hphase]
    rfl
  · have herror' : commitStages chainTipHeight delays (plan chain run.stages)
        (cleaned chain run phase retry) =
        .error "Migration preparation catch-up height overflow" := herror
    refine .inr ⟨hredraws, ?_⟩
    rw [reconcile, hclean, herror']
    rfl

/-- A pass reconciles the run with the chain, unless a redrawn height overflows. -/
theorem reconcile_reconciles {run : Run} (hphase : run.phase.releasesWalletLocks = false)
    (hkeyed : run.Keyed) :
    (∃ run', reconcile chain chainTipHeight delays run = .ok run' ∧
      Reconciled chain chainTipHeight run run') ∨
    Redraws chain run ∧ reconcile chain chainTipHeight delays run =
      .error "Migration preparation catch-up height overflow" := by
  obtain ⟨phase, retry, hclean, hphase', hreset, hkept⟩ :=
    @cleanUpChildren_cleaned chain run hphase hkeyed
  refine (reconcile_cases hkeyed hclean hphase').imp_left ?_
  rintro ⟨stages', -, hreconcile, hstages⟩
  refine ⟨_, hreconcile, hstages, List.filter_sublist, fun child hchild => ?_, ?_,
    fun hchanged => if_pos (affected_nonempty.2 hchanged), fun hchanged => ?_,
    fun hresets => (hreset hresets).2, fun hresets => (hkept hresets).2⟩
  · simp only [cleaned, remainingChildren, List.mem_filter, hchild, true_and, mem_affectedTxids,
      decide_eq_true_eq, not_not]
  · rw [cleaned, List.forall₂_map_right_iff]
    refine List.forall₂_same.2 fun note _ => ?_
    exact ⟨fun h => if_pos ⟨mem_affectedTxids.2 h.1, h.2⟩,
      fun hnot => if_neg fun h => hnot ⟨mem_affectedTxids.1 h.1, h.2⟩⟩
  · have hempty := mt affected_nonempty.1 hchanged
    exact (if_neg hempty).trans (hkept (mt changed_of_resetsChildren hchanged)).1

/-- An inclusion at a height. -/
def sampleIdentity (height : ℕ) : ChainIdentity := ⟨height, Fixed.replicate 32 0⟩

/-- A confirmed split of which one output waits and the other one was migrated. -/
def sampleRun : Run where
  phase := .waitingMigrationConfirmations
  preparationTimingPolicy := .zip318Spaced
  proofRetryHeight := none
  stages := [⟨0, "base", "sigs", "aa", [], 80, some 80, 34560, .attempted,
    .confirmed none (sampleIdentity 90)⟩]
  pendingChildren := [⟨"c0", "aa", 0⟩, ⟨"c1", "aa", 1⟩]
  preparedNotes := [⟨"aa", 0, some "f0", .unlocked⟩, ⟨"aa", 1, some "f1", .unlocked⟩]

/-- The split left the chain with one of its children. -/
def sampleChain (txid : Txid) : Option ChainIdentity :=
  if txid = "c0" then some (sampleIdentity 95) else none

theorem sampleRun_keyed : sampleRun.Keyed := ⟨by decide, by decide, by decide⟩

theorem reconcile_reconciles_sample : ∃ run',
    reconcile sampleChain 110 (fun _ => 1) sampleRun = .ok run' ∧
      Reconciled sampleChain 110 sampleRun run' := by
  obtain h | ⟨-, herror⟩ := @reconcile_reconciles sampleChain 110 (fun _ => 1) sampleRun rfl
    sampleRun_keyed
  · exact h
  · have hok : (reconcile sampleChain 110 (fun _ => 1) sampleRun).isOk := by decide +kernel
    rw [herror] at hok
    cases hok

/-- Two stages wait for their broadcast, and the first one is found on the chain. -/
def redrawnRun : Run where
  phase := .waitingDenomConfirmations
  preparationTimingPolicy := .zip318Spaced
  proofRetryHeight := none
  stages := [
    ⟨0, "base", "sigs", "aa", [], 80, some 80, 34560, .notAttempted, .pending "raw"⟩,
    ⟨1, "base", "sigs", "bb", [], 100, some 100, 34560, .notAttempted, .pending "raw"⟩]
  pendingChildren := []
  preparedNotes := []

/-- The stage that is not on the chain is rescheduled. -/
theorem redrawn_height : ¬ ∀ run',
    reconcile (fun txid => if txid = "aa" then some (sampleIdentity 105) else none) 110
      (fun _ => 1) redrawnRun = .ok run' →
    ∀ stage ∈ redrawnRun.stages, stage.expectedTxid ≠ "aa" → stage ∈ run'.stages := by
  intro h
  have hheights : (reconcile (fun txid => if txid = "aa" then some (sampleIdentity 105) else none)
      110 (fun _ => 1) redrawnRun).toOption.map
      (fun run' => run'.stages.map Stage.broadcastNotBeforeHeight) =
      some [some 80, some 111] := by decide +kernel
  cases hrun : reconcile (fun txid => if txid = "aa" then some (sampleIdentity 105) else none) 110
      (fun _ => 1) redrawnRun with
  | error _ =>
    rw [hrun] at hheights
    cases hheights
  | ok run' =>
    rw [hrun] at hheights
    have hstage := h run' hrun
      ⟨1, "base", "sigs", "bb", [], 100, some 100, 34560, .notAttempted, .pending "raw"⟩
      (.tail _ (.head _)) (by decide)
    have hredrawn : run'.stages.map Stage.broadcastNotBeforeHeight = [some 80, some 111] :=
      Option.some.inj hheights
    have hmem : some 100 ∈ run'.stages.map Stage.broadcastNotBeforeHeight :=
      List.mem_map.2 ⟨_, hstage, rfl⟩
    rw [hredrawn] at hmem
    revert hmem
    decide

/-! ## Interruption -/

/-- The stage is stored as the chain has it. -/
def Stage.Agrees (chain : ChainSnapshot) (stage : Stage) : Prop :=
  ∀ identity, chain stage.expectedTxid = some identity ↔
    ∃ rawTx, stage.state = .confirmed rawTx identity

theorem StageReconciled.agrees {run : Run} {stage stage' : Stage}
    (h : StageReconciled chain chainTipHeight run stage stage') : stage'.Agrees chain := by
  intro identity
  have htxid : stage'.expectedTxid = stage.expectedTxid := by rw [h.rest]
  rw [htxid]
  refine ⟨fun hchain => ⟨_, h.confirmed identity hchain⟩, fun ⟨rawTx, hstate⟩ => ?_⟩
  cases hchain : chain stage.expectedTxid with
  | some other =>
    rw [h.confirmed other hchain] at hstate
    exact congrArg some (StageState.confirmed.inj hstate).2
  | none =>
    by_cases hinvalid : stage.Invalid chain run.stages
    · rw [h.invalid hinvalid] at hstate
      cases hstate
    · rw [h.other hchain hinvalid] at hstate
      exact absurd ⟨hchain, .inl ⟨rawTx, identity, hstate⟩⟩ hinvalid

/-- Stages that agree with the chain call for nothing. -/
theorem plan_agrees {stages : List Stage} (h : ∀ stage ∈ stages, stage.Agrees chain) :
    plan chain stages = ⟨∅, ∅, [], []⟩ := by
  have hchanged : ¬ ∃ txid, Changed chain stages txid := by
    rintro ⟨_, stage, hstage, rfl, rawTx, identity, hstate, hne⟩
    exact hne ((h stage hstage identity).2 ⟨rawTx, hstate⟩)
  have haffected : (plan chain stages).affected = ∅ :=
    Finset.not_nonempty_iff_eq_empty.1 (mt affected_nonempty.1 hchanged)
  have hinvalid : (plan chain stages).invalidStages = ∅ := by
    refine Finset.eq_empty_of_forall_notMem fun txid htxid => hchanged ?_
    obtain ⟨stage, hstage, -, hbad⟩ := mem_invalidStages.1 htxid
    obtain ⟨origin, horigin, -⟩ := affected_of_invalid hstage hbad
    exact ⟨origin, horigin⟩
  have hidentities : (plan chain stages).identitiesToRecord = [] := by
    refine List.eq_nil_iff_forall_not_mem.2 fun entry hentry => ?_
    obtain ⟨stage, hstage, htxid, hchain, hne⟩ := mem_identitiesToRecord.1 hentry
    obtain ⟨rawTx, hstate⟩ := (h stage hstage entry.2).1 (htxid ▸ hchain)
    exact hne rawTx hstate
  have hrecovered : (plan chain stages).recoveredPendingTxids = [] := by
    refine List.eq_nil_iff_forall_not_mem.2 fun txid htxid => ?_
    obtain ⟨stage, hstage, rfl, hchain, rawTx, hpending⟩ := mem_recoveredPendingTxids.1 htxid
    obtain ⟨identity, hidentity⟩ := Option.isSome_iff_exists.1 hchain
    obtain ⟨_, hstate⟩ := (h stage hstage identity).1 hidentity
    rw [hpending] at hstate
    cases hstate
  calc plan chain stages
      = ⟨(plan chain stages).affected, (plan chain stages).invalidStages,
          (plan chain stages).identitiesToRecord, (plan chain stages).recoveredPendingTxids⟩ := rfl
    _ = ⟨∅, ∅, [], []⟩ := by rw [haffected, hinvalid, hidentities, hrecovered]

/-- A pass over stages that agree with the chain changes nothing. -/
theorem reconcile_agrees {run : Run} (h : ∀ stage ∈ run.stages, stage.Agrees chain) :
    reconcile chain chainTipHeight delays run = .ok run := by
  have hclean : cleanUpChildren chain ⟨∅, ∅, [], []⟩ run = run := by
    simp [cleanUpChildren, resetMigrationChildrenForReorgedDenominations]
  rw [reconcile, plan_agrees h, hclean]
  by_cases hphase : run.phase.releasesWalletLocks <;>
    simp [commitStages, commitPhase, hphase, pure, Except.pure]

/-- What is reset after the children transaction was to be reset before it. -/
theorem resetsChildren_of_cleaned {run : Run} {phase : Phase} {retry : Option ℕ}
    (h : ResetsChildren chain (cleaned chain run phase retry)) : ResetsChildren chain run := by
  obtain ⟨child, hchild, hbad⟩ | ⟨note', hnote', haffected, hnot⟩ := h
  · exact .inl ⟨child, (List.mem_filter.1 hchild).1, hbad⟩
  · obtain ⟨note, hnote, rfl⟩ := List.mem_map.1 hnote'
    have htxid : (note.resetIn chain (affectedTxids chain run.stages)
        run.pendingChildren).txid = note.txid := by
      unfold PreparedNote.resetIn
      split_ifs <;> rfl
    refine .inr ⟨note, hnote, htxid ▸ haffected, fun hspent =>
      hnot (spentOnChain_remaining.2 ?_)⟩
    unfold PreparedNote.resetIn
    split_ifs <;> exact hspent

/-- The children transaction has no further effect when it is repeated. -/
theorem cleanUpChildren_repeat {run : Run} {phase : Phase} {retry : Option ℕ}
    (hkeyed : run.Keyed) (hphase : phase.releasesWalletLocks = false)
    (hreset : ResetsChildren chain run → phase = .waitingDenomConfirmations ∧ retry = none) :
    cleanUpChildren chain (plan chain run.stages) (cleaned chain run phase retry) =
      cleaned chain run phase retry := by
  have hchildren : ((cleaned chain run phase retry).pendingChildren.map PendingChild.txid).Nodup :=
    hkeyed.children.sublist (List.filter_sublist.map _)
  obtain ⟨phase', retry', hrepeat, hreset', hkept'⟩ :=
    @cleanUpChildren_eq chain (cleaned chain run phase retry) hphase hchildren
  have hremaining : remainingChildren chain (affectedTxids chain run.stages)
      (cleaned chain run phase retry).pendingChildren =
      (cleaned chain run phase retry).pendingChildren := by
    simp [cleaned, remainingChildren, List.filter_filter]
  have hspent {note : PreparedNote} :
      SpentOnChain chain (cleaned chain run phase retry).pendingChildren note ↔
        SpentOnChain chain run.pendingChildren note := spentOnChain_remaining
  have hnotes : (cleaned chain run phase retry).preparedNotes.map (PreparedNote.resetIn chain
      (affectedTxids chain run.stages) (cleaned chain run phase retry).pendingChildren) =
      (cleaned chain run phase retry).preparedNotes := by
    rw [cleaned, List.map_map]
    refine List.map_congr_left fun note _ => ?_
    by_cases hnote : note.txid ∈ affectedTxids chain run.stages ∧
        ¬ SpentOnChain chain run.pendingChildren note
    · have hresetNote : note.resetIn chain (affectedTxids chain run.stages) run.pendingChildren =
          note.reset := if_pos hnote
      rw [Function.comp_apply, hresetNote]
      exact if_pos ⟨hnote.1, mt hspent.1 hnote.2⟩
    · have hkeptNote : note.resetIn chain (affectedTxids chain run.stages) run.pendingChildren =
          note := if_neg hnote
      rw [Function.comp_apply, hkeptNote]
      exact if_neg fun h => hnote ⟨h.1, mt hspent.2 h.2⟩
  have hsame : phase' = phase ∧ retry' = retry := by
    by_cases hrepeated : ResetsChildren chain (cleaned chain run phase retry)
    · obtain ⟨hphase', hretry'⟩ := hreset' hrepeated
      obtain ⟨hphase, hretry⟩ := hreset (resetsChildren_of_cleaned hrepeated)
      exact ⟨hphase'.trans hphase.symm, hretry'.trans hretry.symm⟩
    · exact hkept' hrepeated
  have hrepeat' :
      cleanUpChildren chain (plan chain run.stages) (cleaned chain run phase retry) = _ := hrepeat
  rw [hrepeat', hsame.1, hsame.2]
  calc
    _ = { cleaned chain run phase retry with
          pendingChildren := remainingChildren chain (affectedTxids chain run.stages)
            (cleaned chain run phase retry).pendingChildren
          preparedNotes := (cleaned chain run phase retry).preparedNotes.map
            (PreparedNote.resetIn chain (affectedTxids chain run.stages)
              (cleaned chain run phase retry).pendingChildren) } := rfl
    _ = cleaned chain run phase retry := by rw [hremaining, hnotes]

/-- A pass that is repeated after an interruption ends as one that was not interrupted, which sends
a run with changed stages back. -/
def Survives (chain : ChainSnapshot) (chainTipHeight : ℕ) (delays : ℕ → ℕ) (run run' : Run) :
    Prop :=
  (∀ transactions, ∃ run'', interrupted chain chainTipHeight delays run transactions = .ok run'' ∧
    reconcile chain chainTipHeight delays run'' = .ok run') ∧
  ((∃ txid, Changed chain run.stages txid) → run'.phase = .waitingDenomConfirmations)

/-- A pass that succeeds survives interruption when the run waits for denominations already, or
the children transaction, which then changes the phase, has something to reset. -/
theorem survives_iff {run run' : Run} (hphase : run.phase.releasesWalletLocks = false)
    (hkeyed : run.Keyed) (h : reconcile chain chainTipHeight delays run = .ok run') :
    Survives chain chainTipHeight delays run run' ↔
      ((∃ txid, Changed chain run.stages txid) →
        run.phase = .waitingDenomConfirmations ∨ ResetsChildren chain run) := by
  obtain ⟨phase, retry, hclean, hphase', hreset, hkept⟩ :=
    @cleanUpChildren_cleaned chain run hphase hkeyed
  obtain ⟨stages', hcommit, hreconcile, hstages⟩ | ⟨-, herror⟩ :=
    @reconcile_cases chain chainTipHeight delays run phase retry hkeyed hclean hphase'
  swap
  · rw [h] at herror
    cases herror
  obtain rfl := Except.ok.inj (h.symm.trans hreconcile)
  have hagrees : ∀ stage ∈ stages', stage.Agrees chain := by
    intro stage hstage
    obtain ⟨_, -, hreconciled⟩ := exists_mem_left hstages hstage
    exact hreconciled.agrees
  have hsentBack : (∃ txid, Changed chain run.stages txid) →
      (if (plan chain run.stages).affected.Nonempty then Phase.waitingDenomConfirmations
        else phase) = .waitingDenomConfirmations := fun hchanged =>
    if_pos (affected_nonempty.2 hchanged)
  have hinterrupted : interrupted chain chainTipHeight delays run 2 =
      .ok { cleaned chain run phase retry with stages := stages' } := by
    rw [interrupted, hclean, hcommit]
  -- A pass over the tables that the second transaction leaves changes nothing.
  have hsecond : reconcile chain chainTipHeight delays
      { cleaned chain run phase retry with stages := stages' } =
      .ok { cleaned chain run phase retry with stages := stages' } := reconcile_agrees hagrees
  constructor
  · rintro ⟨hall, -⟩ hchanged
    obtain ⟨run'', hrun'', hagain⟩ := hall 2
    obtain rfl := Except.ok.inj (hinterrupted.symm.trans hrun'')
    have hwaiting : phase = .waitingDenomConfirmations :=
      (congrArg Run.phase (Except.ok.inj (hsecond.symm.trans hagain))).trans (hsentBack hchanged)
    by_cases hresets : ResetsChildren chain run
    · exact .inr hresets
    · exact .inl ((hkept hresets).1.symm.trans hwaiting)
  · intro hcondition
    refine ⟨fun transactions => ?_, hsentBack⟩
    match transactions with
    | 0 => exact ⟨run, rfl, h⟩
    | 1 =>
      have hrepeat := cleanUpChildren_repeat hkeyed hphase' hreset
      refine ⟨cleaned chain run phase retry, by rw [interrupted, hclean], ?_⟩
      have hagain : reconcile chain chainTipHeight delays (cleaned chain run phase retry) =
          reconcile chain chainTipHeight delays run := by
        rw [reconcile, reconcile, hclean]
        have hplan :
            plan chain (cleaned chain run phase retry).stages = plan chain run.stages := rfl
        rw [hplan, hrepeat]
      rw [hagain, h]
    | 2 =>
      refine ⟨_, hinterrupted, hsecond.trans ?_⟩
      have hsame : (if (plan chain run.stages).affected.Nonempty then
          Phase.waitingDenomConfirmations else phase) = phase := by
        split_ifs with haffected
        · obtain hwaiting | hresets := hcondition (affected_nonempty.1 haffected)
          · by_cases hresets : ResetsChildren chain run
            · exact (hreset hresets).1.symm
            · exact hwaiting.symm.trans (hkept hresets).1.symm
          · exact (hreset hresets).1.symm
        · rfl
      rw [hsame]
      rfl
    | n + 3 =>
      exact ⟨_, h, reconcile_agrees hagrees⟩

theorem sampleRun_changed : Changed sampleChain sampleRun.stages "aa" :=
  ⟨_, .head _, rfl, _, _, rfl, by decide⟩

theorem survives_iff_sample : ∃ run', reconcile sampleChain 110 (fun _ => 1) sampleRun = .ok run' ∧
    Survives sampleChain 110 (fun _ => 1) sampleRun run' := by
  cases hrun : reconcile sampleChain 110 (fun _ => 1) sampleRun with
  | error _ =>
    have hok : (reconcile sampleChain 110 (fun _ => 1) sampleRun).isOk := by decide +kernel
    rw [hrun] at hok
    cases hok
  | ok run' =>
    have hresets : ResetsChildren sampleChain sampleRun :=
      .inl ⟨⟨"c1", "aa", 1⟩, .tail _ (.head _), ⟨_, sampleRun_changed, .refl⟩, by decide⟩
    exact ⟨run', rfl, (survives_iff rfl sampleRun_keyed hrun).2 fun _ => .inr hresets⟩

/-- A split whose only output was migrated. -/
def migratedRun : Run where
  phase := .waitingMigrationConfirmations
  preparationTimingPolicy := .zip318Spaced
  proofRetryHeight := none
  stages := [⟨0, "base", "sigs", "aa", [], 80, some 80, 34560, .attempted,
    .confirmed none (sampleIdentity 90)⟩]
  pendingChildren := [⟨"c0", "aa", 0⟩]
  preparedNotes := [⟨"aa", 0, some "f0", .unlocked⟩]

/-- The split and its child are mined again, the split in another block. -/
def movedChain (txid : Txid) : Option ChainIdentity :=
  if txid = "aa" then some (sampleIdentity 91)
  else if txid = "c0" then some (sampleIdentity 95)
  else none

/-- The update of the phase is lost. -/
theorem phase_lost : ¬ ∀ run', reconcile movedChain 110 (fun _ => 1) migratedRun = .ok run' →
    Survives movedChain 110 (fun _ => 1) migratedRun run' := by
  intro h
  have hphases : (reconcile movedChain 110 (fun _ => 1) migratedRun).toOption.map Run.phase =
      some .waitingDenomConfirmations ∧
      ((interrupted movedChain 110 (fun _ => 1) migratedRun 2).toOption.bind fun run'' =>
        (reconcile movedChain 110 (fun _ => 1) run'').toOption.map Run.phase) =
      some .waitingMigrationConfirmations := by decide +kernel
  cases hrun : reconcile movedChain 110 (fun _ => 1) migratedRun with
  | error _ =>
    rw [hrun] at hphases
    cases hphases.1
  | ok run' =>
    obtain ⟨run'', hinterrupted, hagain⟩ := (h run' hrun).1 2
    simp only [hrun, hinterrupted, hagain, Except.toOption, Option.map_some, Option.bind_some,
      Option.some.injEq] at hphases
    exact absurd (hphases.1.symm.trans hphases.2) (by decide)

end VizorWallet.Migration.Reorg
