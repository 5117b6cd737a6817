import VizorWallet.Library.Pointwise
import VizorWallet.Migration.Reorg.Reconcile

/-!
# What a reorg pass decides

The plan of a pass in terms of the stage graph, and its stage transaction as a change of each stage.

## Main definitions

* `Changed`, `Affected` — stages that the chain confirms differently, and their descendants.
* `Stage.Invalid` — the stages that have to be rebuilt.

## Main results

* `mem_affected`, `mem_invalidStages` — the plan of a pass.
* `commitStages_eq_ok` — the stage transaction.
-/

namespace VizorWallet.Migration.Reorg

/-- A stage is stored as confirmed, but the chain does not include it there. -/
def Changed (chain : ChainSnapshot) (stages : List Stage) (txid : Txid) : Prop :=
  ∃ stage ∈ stages, stage.expectedTxid = txid ∧
    ∃ rawTx identity, stage.state = .confirmed rawTx identity ∧ chain txid ≠ some identity

/-- A changed transaction or a descendant of one through any stages. -/
def Affected (chain : ChainSnapshot) (stages : List Stage) (txid : Txid) : Prop :=
  ∃ origin, Changed chain stages origin ∧
    Relation.ReflTransGen (ParentOf Stage.expectedTxid Stage.parentTxids stages) origin txid

/-- A stage off the chain that was confirmed, or that descends from a changed one. -/
def Stage.Invalid (chain : ChainSnapshot) (stages : List Stage) (stage : Stage) : Prop :=
  chain stage.expectedTxid = none ∧ ((∃ rawTx identity, stage.state = .confirmed rawTx identity) ∨
    ∃ parent ∈ stage.parentTxids, Affected chain stages parent)

/-- The keys of the tables. -/
structure Run.Keyed (run : Run) : Prop where
  txids : (run.stages.map Stage.expectedTxid).Nodup
  indices : (run.stages.map Stage.stageIndex).Nodup
  children : (run.pendingChildren.map PendingChild.txid).Nodup

variable {chain : ChainSnapshot} {stages : List Stage} {txid : Txid}

/-! ## Dispositions -/

theorem disposition_affected {state : StageState} {inclusion : Option ChainIdentity} :
    (disposition state inclusion).affected ↔
      ∃ rawTx identity, state = .confirmed rawTx identity ∧ inclusion ≠ some identity := by
  cases state <;> cases inclusion <;> simp only [disposition]
  all_goals first | split_ifs <;> simp_all [eq_comm] | simp

theorem disposition_invalid {state : StageState} {inclusion : Option ChainIdentity} :
    (disposition state inclusion).invalid ↔
      inclusion = none ∧ ∃ rawTx identity, state = .confirmed rawTx identity := by
  cases state <;> cases inclusion <;> simp only [disposition]
  all_goals first | split_ifs <;> simp_all | simp

theorem disposition_identity {state : StageState} {inclusion : Option ChainIdentity}
    {identity : ChainIdentity} : (disposition state inclusion).identity = some identity ↔
      inclusion = some identity ∧ ∀ rawTx, state ≠ .confirmed rawTx identity := by
  cases state <;> cases inclusion <;> simp only [disposition]
  all_goals first | split_ifs <;> simp_all | simp
  all_goals grind

theorem disposition_recovered {state : StageState} {inclusion : Option ChainIdentity} :
    (disposition state inclusion).recovered ↔
      inclusion.isSome ∧ ∃ rawTx, state = .pending rawTx := by
  cases state <;> cases inclusion <;> simp only [disposition]
  all_goals first | split_ifs <;> simp_all | simp

/-! ## The plan -/

theorem mem_txidsOf {condition : Stage → Bool} :
    txid ∈ txidsOf stages condition ↔ ∃ stage ∈ stages, condition stage ∧
      stage.expectedTxid = txid := by
  simp [txidsOf, and_assoc]

theorem missing_card_lt (s : Finset Txid) :
    (missing Stage.expectedTxid stages s).card < stages.length + 1 := by
  refine Nat.lt_succ_of_le ((Finset.card_le_card Finset.sdiff_subset).trans ?_)
  exact (List.toFinset_card_le _).trans (by simp)

theorem mem_affected : txid ∈ (plan chain stages).affected ↔ Affected chain stages txid := by
  have hchanged {origin : Txid} : Changed chain stages origin ↔
      origin ∈ txidsOf stages fun stage => (stage.disposition chain).affected := by
    simp only [mem_txidsOf, Stage.disposition, disposition_affected, Changed]
    constructor
    · rintro ⟨stage, hstage, rfl, rawTx, identity, hstate, hne⟩
      exact ⟨stage, hstage, ⟨rawTx, identity, hstate, hne⟩, rfl⟩
    · rintro ⟨stage, hstage, ⟨rawTx, identity, hstate, hne⟩, rfl⟩
      exact ⟨stage, hstage, rfl, rawTx, identity, hstate, hne⟩
  simp only [Affected, hchanged]
  exact mem_saturate (missing_card_lt _)

theorem mem_invalidStages : txid ∈ (plan chain stages).invalidStages ↔
    ∃ stage ∈ stages, stage.expectedTxid = txid ∧ stage.Invalid chain stages := by
  have hmarked : txid ∈ (plan chain stages).invalidStages ↔
      txid ∈ txidsOf stages (fun stage => (stage.disposition chain).invalid) ∨
        ∃ stage ∈ stages, (chain stage.expectedTxid).isNone ∧ stage.expectedTxid = txid ∧
          ∃ parent ∈ stage.parentTxids, parent ∈ (plan chain stages).affected :=
    mem_saturate_marked (missing_card_lt _)
  rw [hmarked]
  simp only [mem_txidsOf, Stage.disposition, disposition_invalid, Stage.Invalid, mem_affected,
    Option.isNone_iff_eq_none]
  constructor
  · rintro (⟨stage, hstage, ⟨hchain, hconfirmed⟩, rfl⟩ | ⟨stage, hstage, hchain, rfl, hparent⟩)
    · exact ⟨stage, hstage, rfl, hchain, .inl hconfirmed⟩
    · exact ⟨stage, hstage, rfl, hchain, .inr hparent⟩
  · rintro ⟨stage, hstage, rfl, hchain, hconfirmed | hparent⟩
    · exact .inl ⟨stage, hstage, ⟨hchain, hconfirmed⟩, rfl⟩
    · exact .inr ⟨stage, hstage, hchain, rfl, hparent⟩

theorem mem_identitiesToRecord {entry : Txid × ChainIdentity} :
    entry ∈ (plan chain stages).identitiesToRecord ↔ ∃ stage ∈ stages,
      stage.expectedTxid = entry.1 ∧ chain entry.1 = some entry.2 ∧
        ∀ rawTx, stage.state ≠ .confirmed rawTx entry.2 := by
  obtain ⟨txid, identity⟩ := entry
  simp only [plan, List.mem_filterMap, Stage.disposition, Option.map_eq_some_iff,
    disposition_identity, Prod.mk.injEq]
  constructor
  · rintro ⟨stage, hstage, _, ⟨hchain, hne⟩, rfl, rfl⟩
    exact ⟨stage, hstage, rfl, hchain, hne⟩
  · rintro ⟨stage, hstage, rfl, hchain, hne⟩
    exact ⟨stage, hstage, identity, ⟨hchain, hne⟩, rfl, rfl⟩

theorem mem_recoveredPendingTxids : txid ∈ (plan chain stages).recoveredPendingTxids ↔
    ∃ stage ∈ stages, stage.expectedTxid = txid ∧ (chain txid).isSome ∧
      ∃ rawTx, stage.state = .pending rawTx := by
  simp only [plan, List.mem_map, List.mem_filter, Stage.disposition, disposition_recovered]
  constructor
  · rintro ⟨stage, ⟨hstage, hchain, hpending⟩, rfl⟩
    exact ⟨stage, hstage, rfl, hchain, hpending⟩
  · rintro ⟨stage, hstage, rfl, hchain, hpending⟩
    exact ⟨stage, ⟨hstage, hchain, hpending⟩, rfl⟩

/-- Invalid stages are among the affected ones. -/
theorem affected_of_invalid {stage : Stage} (hstage : stage ∈ stages)
    (h : stage.Invalid chain stages) : Affected chain stages stage.expectedTxid := by
  obtain ⟨hchain, ⟨rawTx, identity, hstate⟩ | ⟨parent, hparent, origin, horigin, hdescends⟩⟩ := h
  · exact ⟨_, ⟨stage, hstage, rfl, rawTx, identity, hstate, by simp [hchain]⟩, .refl⟩
  · exact ⟨origin, horigin, hdescends.tail ⟨stage, hstage, hparent, rfl⟩⟩

/-! ## The stage transaction -/

section Updates

variable {ε : Type} (key : ε → Txid) (update : ε → Stage → Stage) (error : ε → String)

/-- The updates of one stage, in their order. -/
def updates (entries : List ε) (stage : Stage) : Stage :=
  entries.foldl (fun s e => if s.expectedTxid = key e then update e s else s) stage

variable {key update} in
theorem updates_of_ne {entries : List ε} {stage : Stage}
    (h : ∀ e ∈ entries, stage.expectedTxid ≠ key e) : updates key update entries stage = stage := by
  unfold updates
  induction entries with
  | nil => rfl
  | cons e rest ih =>
    rw [List.foldl_cons, if_neg (h e List.mem_cons_self)]
    exact ih fun e he => h e (List.mem_cons_of_mem _ he)

/-- A sequence of updates of existing stages changes each stage on its own. -/
theorem foldlM_updateStage (hkey : ∀ e s, (update e s).expectedTxid = s.expectedTxid)
    {entries : List ε} (hnodup : (stages.map Stage.expectedTxid).Nodup)
    (hentries : ∀ e ∈ entries, key e ∈ stages.map Stage.expectedTxid) :
    entries.foldlM (fun s e => updateStage (key e) (update e) (error e) s) stages =
      .ok (stages.map (updates key update entries)) := by
  induction entries generalizing stages with
  | nil =>
    have hid : updates key update [] = id := rfl
    rw [hid, List.map_id]
    rfl
  | cons e rest ih =>
    obtain ⟨stage, hstage, htxid⟩ := List.mem_map.1 (hentries e List.mem_cons_self)
    have hcount : (stages.filter fun s => s.expectedTxid = key e).length = 1 := by
      have hcount := List.count_eq_one_of_mem hnodup (hentries e List.mem_cons_self)
      rw [List.count, List.countP_map, List.countP_eq_length_filter] at hcount
      exact hcount
    have hmap : (stages.map fun s => if s.expectedTxid = key e then update e s else s).map
        Stage.expectedTxid = stages.map Stage.expectedTxid := by
      rw [List.map_map]
      refine List.map_congr_left fun s _ => ?_
      dsimp only [Function.comp]
      split_ifs
      · exact hkey e s
      · rfl
    rw [List.foldlM_cons, updateStage, ensure_of _ hcount]
    simp only [ok_bind, pure, Except.pure]
    rw [ih (hmap ▸ hnodup) fun e' he' => hmap ▸ hentries e' (List.mem_cons_of_mem e he'),
      List.map_map]
    rfl

end Updates

@[simp] theorem reset_expectedTxid (stage : Stage) :
    stage.reset.expectedTxid = stage.expectedTxid := rfl

@[simp] theorem reset_reset (stage : Stage) : stage.reset.reset = stage.reset := rfl

@[simp] theorem confirm_confirm (identity : ChainIdentity) (stage : Stage) :
    (stage.confirm identity).confirm identity = stage.confirm identity := rfl

theorem updates_reset {txids : List Txid} {stage : Stage} :
    updates id (fun _ => Stage.reset) txids stage =
      if stage.expectedTxid ∈ txids then stage.reset else stage := by
  unfold updates
  induction txids generalizing stage with
  | nil => simp
  | cons txid rest ih =>
    rw [List.foldl_cons, ih]
    by_cases htxid : stage.expectedTxid = txid <;> simp [htxid]

theorem updates_confirm {entries : List (Txid × ChainIdentity)} {stage : Stage}
    {identity : ChainIdentity} (h : ∀ e ∈ entries, e.1 = stage.expectedTxid → e.2 = identity) :
    updates Prod.fst (fun e => Stage.confirm e.2) entries stage =
      if ∃ e ∈ entries, e.1 = stage.expectedTxid then stage.confirm identity else stage := by
  unfold updates
  induction entries generalizing stage with
  | nil => simp
  | cons e rest ih =>
    have hrest : ∀ e ∈ rest, e.1 = stage.expectedTxid → e.2 = identity :=
      fun e he => h e (List.mem_cons_of_mem _ he)
    rw [List.foldl_cons]
    by_cases htxid : stage.expectedTxid = e.1
    · have hidentity : e.2 = identity := h e List.mem_cons_self htxid.symm
      have hconfirmed := @ih (stage.confirm identity) hrest
      dsimp only at hconfirmed ⊢
      rw [if_pos htxid, hidentity, hconfirmed, confirm_confirm, ite_self,
        if_pos ⟨e, List.mem_cons_self, htxid.symm⟩]
    · rw [if_neg htxid]
      refine (ih hrest).trans (if_congr ?_ rfl rfl)
      rw [List.exists_mem_cons_iff, or_iff_right (Ne.symm htxid)]

/-- The stage after the resets and the recorded inclusions. -/
def Stage.settle (chain : ChainSnapshot) (p : Plan) (stage : Stage) : Stage :=
  if stage.expectedTxid ∈ p.invalidStages then stage.reset
  else (chain stage.expectedTxid).elim stage fun identity => stage.confirm identity

theorem settle_eq {p : Plan} (stage : Stage) :
    stage.settle chain p = { stage with state := (stage.settle chain p).state } := by
  unfold Stage.settle
  split_ifs
  · rfl
  · cases chain stage.expectedTxid <;> rfl

@[simp] theorem settle_stageIndex {p : Plan} (stage : Stage) :
    (stage.settle chain p).stageIndex = stage.stageIndex := by
  rw [settle_eq]

theorem confirm_stage {stage : Stage} (hstage : stage ∈ stages)
    (hvalid : stage.expectedTxid ∉ (plan chain stages).invalidStages) :
    updates Prod.fst (fun e => Stage.confirm e.2)
      ((plan chain stages).identitiesToRecord.filter (·.1 ∉ (plan chain stages).invalidStages))
      stage = stage.settle chain (plan chain stages) := by
  have hentry : ∀ e ∈ (plan chain stages).identitiesToRecord.filter
      (·.1 ∉ (plan chain stages).invalidStages),
      e.1 = stage.expectedTxid → chain stage.expectedTxid = some e.2 := by
    intro e he htxid
    obtain ⟨_, -, -, hsome, -⟩ := mem_identitiesToRecord.1 (List.mem_filter.1 he).1
    rw [← htxid, hsome]
  rw [Stage.settle, if_neg hvalid]
  cases hchain : chain stage.expectedTxid with
  | none =>
    have hnone (identity : ChainIdentity) : ∀ e ∈ (plan chain stages).identitiesToRecord.filter
        (·.1 ∉ (plan chain stages).invalidStages),
        e.1 = stage.expectedTxid → e.2 = identity := by
      intro e he htxid
      simp [hentry e he htxid] at hchain
    rw [updates_confirm (hnone ⟨0, Fixed.replicate 32 0⟩), if_neg, Option.elim_none]
    rintro ⟨e, he, htxid⟩
    simp [hentry e he htxid] at hchain
  | some identity =>
    have hidentity : ∀ e ∈ (plan chain stages).identitiesToRecord.filter
        (·.1 ∉ (plan chain stages).invalidStages),
        e.1 = stage.expectedTxid → e.2 = identity := by
      intro e he htxid
      rw [hentry e he htxid] at hchain
      exact Option.some.inj hchain
    rw [updates_confirm hidentity, Option.elim_some]
    split_ifs with hrecorded
    · rfl
    · -- Only a stage with exactly this inclusion is left out of the record.
      by_cases hsame : ∃ rawTx, stage.state = .confirmed rawTx identity
      · obtain ⟨rawTx, hstate⟩ := hsame
        rw [Stage.confirm, hstate, StageState.rawTx, ← hstate]
      · refine absurd ⟨(stage.expectedTxid, identity),
          List.mem_filter.2 ⟨?_, by simpa using hvalid⟩, rfl⟩ hrecorded
        exact mem_identitiesToRecord.2 ⟨stage, hstage, rfl, hchain,
          fun rawTx hstate => hsame ⟨rawTx, hstate⟩⟩

/-- The resets and the recorded inclusions of a pass succeed and settle every stage. -/
theorem settle_stages (hnodup : (stages.map Stage.expectedTxid).Nodup) :
    (((stages.map Stage.expectedTxid).filter (· ∈ (plan chain stages).invalidStages)).foldlM
        resetDenominationStageExact stages >>= fun s =>
      ((plan chain stages).identitiesToRecord.filter
        (·.1 ∉ (plan chain stages).invalidStages)).foldlM
        replaceDenominationStageConfirmationIdentity s) =
      .ok (stages.map (Stage.settle chain (plan chain stages))) := by
  set invalid := (stages.map Stage.expectedTxid).filter (· ∈ (plan chain stages).invalidStages)
    with hinvalid
  have hreset : invalid.foldlM resetDenominationStageExact stages =
      .ok (stages.map (updates id (fun _ => Stage.reset) invalid)) :=
    foldlM_updateStage id (fun _ => Stage.reset) _ (fun _ _ => rfl) hnodup
      fun txid htxid => (List.mem_filter.1 htxid).1
  have hmap : (stages.map (updates id (fun _ => Stage.reset) invalid)).map Stage.expectedTxid =
      stages.map Stage.expectedTxid := by
    rw [List.map_map]
    refine List.map_congr_left fun stage _ => ?_
    rw [Function.comp_apply, updates_reset]
    split_ifs <;> rfl
  have hconfirm : ((plan chain stages).identitiesToRecord.filter
      (·.1 ∉ (plan chain stages).invalidStages)).foldlM
      replaceDenominationStageConfirmationIdentity
      (stages.map (updates id (fun _ => Stage.reset) invalid)) = _ :=
    foldlM_updateStage Prod.fst (fun e => Stage.confirm e.2) _ (fun _ _ => rfl) (hmap ▸ hnodup) ?_
  · rw [hreset, ok_bind, hconfirm, List.map_map]
    refine congrArg Except.ok (List.map_congr_left fun stage hstage => ?_)
    rw [Function.comp_apply, updates_reset]
    have hmem : stage.expectedTxid ∈ invalid ↔
        stage.expectedTxid ∈ (plan chain stages).invalidStages := by
      rw [hinvalid, List.mem_filter, decide_eq_true_iff]
      exact and_iff_right (List.mem_map_of_mem hstage)
    split_ifs with hreset
    · rw [Stage.settle, if_pos (hmem.1 hreset)]
      refine updates_of_ne fun e he htxid => ?_
      rw [reset_expectedTxid] at htxid
      have hvalid := (List.mem_filter.1 he).2
      rw [← htxid, decide_eq_true_iff] at hvalid
      exact hvalid (hmem.1 hreset)
    · exact confirm_stage hstage (mt hmem.2 hreset)
  · intro e he
    obtain ⟨stage, hstage, htxid, -⟩ := mem_identitiesToRecord.1 (List.mem_filter.1 he).1
    rw [hmap, ← htxid]
    exact List.mem_map_of_mem hstage

end VizorWallet.Migration.Reorg
