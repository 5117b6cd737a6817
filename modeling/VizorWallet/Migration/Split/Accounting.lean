import VizorWallet.Migration.Preparation.Conservation
import VizorWallet.Migration.Split.Replay
import VizorWallet.Migration.Split.Translation

/-!
# Accounting of padded plans

Every zatoshi of the selected notes is accounted for by a plan, and every part is one note.

## Main results

* `paddedPlan_accounting` — the accounting of every plan of the three entry points, and the
  translation of every affordable preparation.
-/

namespace VizorWallet.Migration

/-- The wallet note a stage input spends, with its value. -/
def SplitStageInput.original? : SplitStageInput → Option (ℕ × ℕ)
  | original index value => some (index, value)
  | prior _ _ _ => none

namespace PaddedDenominationPlan

/-- The inputs a plan uses directly or spends in a stage, with their values. -/
def originals (plan : PaddedDenominationPlan) : List (ℕ × ℕ) :=
  plan.directMigrationInputs.map (fun input => (input.inputIndex, input.value)) ++
    (plan.stages.flatMap SplitStagePlan.inputs).filterMap SplitStageInput.original?

/-- The notes the parts migrate: the direct inputs and the migration outputs. -/
def migrationNotes (plan : PaddedDenominationPlan) : List (Option ℕ × ℕ) :=
  plan.directMigrationInputs.map (fun input => (some input.partIndex, input.value)) ++
    ((plan.stages.flatMap SplitStagePlan.outputs).filter fun out => out.kind = .migration).map
      fun out => (out.partIndex, out.value)

/-- The change the stages return to the pool. -/
def changeOutputs (plan : PaddedDenominationPlan) : List ℕ :=
  ((plan.stages.flatMap SplitStagePlan.outputs).filter fun out => out.kind = .orchardChange).map
    SplitStageOutput.value

/-- The positive inputs that no stage spends and no part uses directly. -/
def untouched (inputValues : List ℕ) (plan : PaddedDenominationPlan) : List ℕ :=
  ((positiveIndices inputValues).filter fun index => index ∉ plan.originals.map Prod.fst).map
    fun index => inputValues[index]?.getD 0

end PaddedDenominationPlan

/-- What a plan accounts for. -/
structure PlanAccounting (inputValues : List ℕ) (feePerStage migrationFee : ℕ)
    (plan : PaddedDenominationPlan) : Prop where
  outputs_sorted : plan.denominations.migrationOutputs.Pairwise (· ≥ ·)
  outputs_canonical : ∀ d ∈ plan.denominations.migrationOutputs, isZip318CanonicalDenomination d
  /-- Each part is one note, of its denomination and the migration fee. -/
  parts_once : (plan.migrationNotes.map Prod.fst).Perm
    ((List.range plan.denominations.migrationOutputs.length).map some)
  parts_value : ∀ index value, (some index, value) ∈ plan.migrationNotes →
    ∃ d, plan.denominations.migrationOutputs[index]? = some d ∧ value = d + migrationFee
  /-- Direct and original inputs are distinct positive inputs of their value. -/
  originals_once : (plan.originals.map Prod.fst).Nodup
  originals_carried : ∀ index value, (index, value) ∈ plan.originals →
    inputValues[index]? = some value ∧ 0 < value
  /-- Prior inputs are continuation outputs of earlier stages. -/
  prior_carried : ∀ (index : ℕ) (stage : SplitStagePlan), plan.stages[index]? = some stage →
    ∀ s o value, .prior s o value ∈ stage.inputs →
      s < index ∧ ∃ earlier : SplitStagePlan, plan.stages[s]? = some earlier ∧
        earlier.outputs[o]? = some ⟨value, .continuation, none⟩
  total : plan.denominations.totalInput =
    plan.denominations.migrationOutputs.sum +
      plan.denominations.migrationOutputs.length * migrationFee +
      plan.denominations.splitFee + plan.denominations.orchardChange.getD 0
  totalInput : plan.denominations.totalInput = inputValues.sum
  splitFee : plan.denominations.splitFee = feePerStage * plan.stages.length
  change : plan.denominations.orchardChange.getD 0 =
    plan.changeOutputs.sum + (plan.untouched inputValues).sum

/-! ## The selected inputs -/

theorem mem_positiveIndices {inputValues : List ℕ} {index : ℕ} :
    index ∈ positiveIndices inputValues ↔
      ∃ value, inputValues[index]? = some value ∧ 0 < value := by
  simp only [positiveIndices, List.mem_filterMap, Prod.exists, List.mk_mem_zipIdx_iff_getElem?]
  constructor
  · rintro ⟨value, i, hget, hsome⟩
    split_ifs at hsome with hpos
    cases hsome
    exact ⟨value, hget, hpos⟩
  · rintro ⟨value, hget, hpos⟩
    exact ⟨value, index, hget, if_pos hpos⟩

theorem nodup_positiveIndices (inputValues : List ℕ) : (positiveIndices inputValues).Nodup := by
  rw [positiveIndices]
  refine (pairwise_zipIdx inputValues 0).filterMap _ ?_
  rintro ⟨value, index⟩ ⟨value', index'⟩ hlt i hi i' hi'
  simp only at hi hi'
  split_ifs at hi hi'
  cases hi
  cases hi'
  simp only at hlt
  omega

/-- The values of the positive inputs, in their order. -/
theorem map_positiveIndices (inputValues : List ℕ) :
    ((positiveIndices inputValues).map fun index => inputValues[index]?.getD 0) =
      inputValues.filter (0 < ·) := by
  have hfrom : ∀ (values before : List ℕ),
      (((values.zipIdx before.length).filterMap fun entry =>
        if 0 < entry.1 then some entry.2 else none).map fun index =>
          (before ++ values)[index]?.getD 0) = values.filter (0 < ·) := by
    intro values
    induction values with
    | nil => simp
    | cons v rest ih =>
      intro before
      have hrest := ih (before ++ [v])
      rw [List.length_append, List.length_singleton, List.append_assoc] at hrest
      rw [List.zipIdx_cons, List.filterMap_cons]
      by_cases hpos : 0 < v
      · simpa [hpos] using hrest
      · simpa [hpos] using hrest
  simpa [positiveIndices] using hfrom inputValues []

/-- The positive inputs add up to all inputs. -/
theorem sum_positiveIndices (inputValues : List ℕ) :
    ((positiveIndices inputValues).map fun index => inputValues[index]?.getD 0).sum =
      inputValues.sum := by
  rw [map_positiveIndices]
  induction inputValues with
  | nil => rfl
  | cons v rest ih =>
    rw [List.filter_cons, List.sum_cons, ← ih]
    split_ifs with hpos
    · rfl
    · obtain rfl : v = 0 := by simpa using hpos
      rw [Nat.zero_add]

/-- What a planning context is. -/
theorem planningContext_eq_some {inputValues : List ℕ} {feePerStage minimumOutput : ℕ}
    {context : PlanningContext}
    (h : planningContext inputValues feePerStage minimumOutput = .ok (some context)) :
    context.positiveInputIndices = positiveIndices inputValues ∧
      context.totalInput = inputValues.sum ∧
      context.available.map Zatoshis.val =
        (positiveIndices inputValues).map (fun index => inputValues[index]?.getD 0) ∧
      context.prepFee.val = feePerStage ∧ minimumOutput = 1 := by
  unfold planningContext at h
  simp only at h
  split_ifs at h
  · cases h
  · simp only [bind_eq_ok, ensure_eq_ok, checkedSum_eq_ok, mapM_orError_eq_ok, map_ofNat?_eq,
      orError_eq_ok, Zatoshis.ofNat?_eq_some, pure_eq_ok, Option.some.injEq] at h
    obtain ⟨-, -, -, hmin, total, ⟨rfl, -⟩, available, havailable, fee, hfee, rfl⟩ := h
    exact ⟨rfl, sum_positiveIndices inputValues, havailable, hfee, hmin⟩

/-! ## The stages -/

variable {inputValues fundingValues positions : List ℕ} {feePerStage migrationFee : ℕ}
  {preparation : PreparationPlan} {plan : PaddedDenominationPlan}

/-- The migration notes are the parts assigned. -/
theorem filter_migration_eq {outputs : List PrepOutput} {stageOutputs : List SplitStageOutput}
    (h : List.Forall₂ StageOutput outputs stageOutputs) :
    (stageOutputs.filter fun out => out.kind = .migration).map
        (fun out => (out.partIndex, out.value)) =
      (stageOutputs.filterMap SplitStageOutput.part?).map fun part => (some part.2, part.1) := by
  induction h with
  | nil => rfl
  | cons hout _ ih =>
    cases hout <;> simp [SplitStageOutput.part?, List.filterMap_cons, ih]

/-- The change outputs of the stages are those of the transactions. -/
theorem filter_change_eq {outputs : List PrepOutput} {stageOutputs : List SplitStageOutput}
    (h : List.Forall₂ StageOutput outputs stageOutputs) :
    (stageOutputs.filter fun out => out.kind = .orchardChange).map SplitStageOutput.value =
      outputs.filterMap PrepOutput.change? := by
  induction h with
  | nil => rfl
  | cons hout _ ih =>
    cases hout <;> simp [PrepOutput.change?, List.filterMap_cons, ih]

/-- The original inputs of the stages are the wallet inputs, at their positions. -/
theorem filterMap_original_eq {order : List (ℕ × ℕ)} {inputs : List PrepInput}
    {stageInputs : List SplitStageInput}
    (h : List.Forall₂ (StageInput positions order) inputs stageInputs) :
    stageInputs.filterMap SplitStageInput.original? =
      (inputs.filterMap PrepInput.wallet?).map fun note => (positions[note.1]?.getD 0, note.2) := by
  induction h with
  | nil => rfl
  | cons hin _ ih =>
    cases hin with
    | original hpos =>
      simp [SplitStageInput.original?, PrepInput.wallet?, ih, hpos]
    | prior => simpa [SplitStageInput.original?, PrepInput.wallet?, List.filterMap_cons] using ih

theorem flatMap_locatedTransactions {α : Type} (f : PrepTransaction → List α) (layers : Layers) :
    ((locatedTransactions layers).flatMap fun entry => f entry.2) = layers.flatten.flatMap f := by
  rw [← map_snd_locatedTransactions, List.flatMap_map]

theorem Translated.outputs (h : Translated positions fundingValues feePerStage preparation plan) :
    List.Forall₂ StageOutput preparation.allOutputs
      (plan.stages.flatMap SplitStagePlan.outputs) := by
  have hall := forall₂_flatMap (f := fun entry => entry.2.outputs) (g := SplitStagePlan.outputs)
    h.stages fun _ _ hstage => hstage.outputs
  rwa [flatMap_locatedTransactions PrepTransaction.outputs] at hall

theorem Translated.inputs (h : Translated positions fundingValues feePerStage preparation plan) :
    List.Forall₂
      (StageInput positions ((locatedTransactions preparation.layers).map Prod.fst))
      (spentInputs preparation.layers) (plan.stages.flatMap SplitStagePlan.inputs) := by
  have hall := forall₂_flatMap (f := fun entry => entry.2.inputs) (g := SplitStagePlan.inputs)
    h.stages fun _ _ hstage => hstage.inputs
  rwa [flatMap_locatedTransactions PrepTransaction.inputs] at hall

theorem Translated.migrationNotes_perm
    (h : Translated positions fundingValues feePerStage preparation plan) :
    plan.migrationNotes.Perm (fundingValues.zipIdx.map fun part => (some part.2, part.1)) := by
  have hparts := h.parts.map fun part : ℕ × ℕ => (some part.2, part.1)
  rw [List.map_append, List.map_map, stageParts, ← filter_migration_eq h.outputs] at hparts
  exact hparts

theorem Translated.originals_perm
    (h : Translated positions fundingValues feePerStage preparation plan) :
    plan.originals.Perm
      (preparation.walletUses.map fun note => (positions[note.1]?.getD 0, note.2)) := by
  obtain ⟨inputs, hperm, hinputs⟩ := h.direct
  have hdirect := map_eq_of_forall₂ (f := fun note : ℕ × ℕ => (positions[note.1]?.getD 0, note.2))
    (g := fun input : DirectMigrationInput => (input.inputIndex, input.value)) hinputs
    (fun note input hnote => by rw [hnote.1, hnote.2]; rfl)
  rw [PaddedDenominationPlan.originals, PreparationPlan.walletUses, List.map_append,
    PreparationPlan.walletInputs, ← filterMap_original_eq h.inputs, ← hdirect]
  exact (hperm.map _).append_right _

/-- A stage that spends a prior output comes after the stage of that output. -/
theorem Translated.prior_carried {available : List ℕ}
    (hsound : SoundPlan available fundingValues feePerStage preparation) {parts : List ℕ}
    (h : Translated positions parts feePerStage preparation plan) {index : ℕ}
    {stage : SplitStagePlan} (hstage : plan.stages[index]? = some stage) {s o value : ℕ}
    (hin : .prior s o value ∈ stage.inputs) :
    s < index ∧ ∃ earlier : SplitStagePlan, plan.stages[s]? = some earlier ∧
      earlier.outputs[o]? = some ⟨value, .continuation, none⟩ := by
  obtain ⟨⟨⟨layer, t⟩, tx⟩, hentry, hof⟩ := forall₂_getElem?_right h.stages hstage
  obtain ⟨txs, hlayer, htx⟩ := mem_locatedTransactions.1 (List.mem_of_getElem? hentry)
  obtain ⟨j, hj⟩ := List.mem_iff_getElem?.1 hin
  obtain ⟨input, hinput, hstageInput⟩ := forall₂_getElem?_right hof.inputs hj
  cases hstageInput with
  | prior horder =>
    rename_i l t'
    rw [List.getElem?_map, Option.map_eq_some_iff] at horder
    obtain ⟨⟨key, tx'⟩, hearlier, rfl⟩ := horder
    obtain ⟨txs', hlayer', htx'⟩ := mem_locatedTransactions.1 (List.mem_of_getElem? hearlier)
    obtain ⟨hlt, hout⟩ := hsound.prior_carried layer txs hlayer tx (List.mem_of_getElem? htx) l t'
      o value (List.mem_of_getElem? hinput)
    obtain ⟨earlier, hstage', hof'⟩ := forall₂_getElem?_left h.stages hearlier
    have hout' : tx'.outputs[o]? = some (.intermediate value) := by
      simpa [outputAt, hlayer', htx'] using hout
    obtain ⟨stageOutput, hget, hstageOutput⟩ := forall₂_getElem?_left hof'.outputs hout'
    refine ⟨?_, earlier, hstage', ?_⟩
    · -- the transactions come layer by layer
      by_contra hge
      have hpairwise := pairwise_locatedTransactions preparation.layers
      obtain ⟨hs, hs'⟩ := List.getElem?_eq_some_iff.1 hearlier
      obtain ⟨hi, hi'⟩ := List.getElem?_eq_some_iff.1 hentry
      obtain heq | hlt' := Nat.eq_or_lt_of_le (not_lt.1 hge)
      · subst heq
        rw [hs'] at hi'
        cases hi'
        omega
      · have hle := List.pairwise_iff_getElem.1 hpairwise index s hi hs hlt'
        rw [hs', hi'] at hle
        simp only at hle
        omega
    · cases hstageOutput
      exact hget

/-! ## The accounting -/

/-- The inputs used and the untouched ones make up all positive inputs. -/
theorem sum_untouched {uses : List (ℕ × ℕ)} (hnodup : (uses.map Prod.fst).Nodup)
    (hcarried : ∀ note ∈ uses, inputValues[note.1]? = some note.2 ∧ 0 < note.2) :
    (uses.map Prod.snd).sum +
        (((positiveIndices inputValues).filter fun index => index ∉ uses.map Prod.fst).map
          fun index => inputValues[index]?.getD 0).sum = inputValues.sum := by
  have hvalues : uses.map Prod.snd =
      (uses.map Prod.fst).map fun index => inputValues[index]?.getD 0 := by
    rw [List.map_map]
    refine List.map_congr_left fun note hmem => ?_
    simp [(hcarried note hmem).1]
  have hperm : (positiveIndices inputValues).Perm (uses.map Prod.fst ++
      (positiveIndices inputValues).filter fun index => index ∉ uses.map Prod.fst) := by
    refine (List.perm_ext_iff_of_nodup (nodup_positiveIndices _) ?_).2 fun index => ?_
    · refine List.nodup_append.2 ⟨hnodup, (nodup_positiveIndices _).filter _, ?_⟩
      rintro index hmem index' hmem' rfl
      simpa [hmem] using (List.mem_filter.1 hmem').2
    · rw [List.mem_append, List.mem_filter, decide_eq_true_eq]
      constructor
      · intro hmem
        by_cases hused : index ∈ uses.map Prod.fst
        · exact .inl hused
        · exact .inr ⟨hmem, hused⟩
      · rintro (hused | ⟨hmem, -⟩)
        · obtain ⟨note, hnote, rfl⟩ := List.mem_map.1 hused
          exact mem_positiveIndices.2 ⟨note.2, hcarried note hnote⟩
        · exact hmem
  have hsum := (hperm.map fun index => inputValues[index]?.getD 0).sum_eq
  rw [sum_positiveIndices, List.map_append, List.sum_append, ← hvalues] at hsum
  exact hsum.symm

/-- The available values of a plan are those of the positive inputs, at their positions. -/
theorem getElem?_available {available : List ℕ}
    (havailable : available = (positiveIndices inputValues).map fun i => inputValues[i]?.getD 0)
    {index value : ℕ} (h : available[index]? = some value) :
    ∃ position, (positiveIndices inputValues)[index]? = some position ∧
      inputValues[position]? = some value ∧ 0 < value := by
  rw [havailable, List.getElem?_map, Option.map_eq_some_iff] at h
  obtain ⟨position, hposition, hvalue⟩ := h
  obtain ⟨v, hget, hpos⟩ := mem_positiveIndices.1 (List.mem_of_getElem? hposition)
  rw [hget, Option.getD_some] at hvalue
  exact ⟨position, hposition, by rw [hget, hvalue], hvalue ▸ hpos⟩

/-- The originals of a translated plan are distinct positive inputs of their value. -/
theorem Translated.originals {available parts : List ℕ}
    (hsound : SoundPlan available fundingValues feePerStage preparation)
    (havailable : available = (positiveIndices inputValues).map fun i => inputValues[i]?.getD 0)
    (h : Translated (positiveIndices inputValues) parts feePerStage preparation plan) :
    (plan.originals.map Prod.fst).Nodup ∧
      ∀ note ∈ plan.originals, inputValues[note.1]? = some note.2 ∧ 0 < note.2 := by
  have hperm := h.originals_perm
  constructor
  · rw [(hperm.map Prod.fst).nodup_iff, List.map_map]
    have hmap : preparation.walletUses.map (Prod.fst ∘ fun note : ℕ × ℕ =>
        ((positiveIndices inputValues)[note.1]?.getD 0, note.2)) =
        (preparation.walletUses.map Prod.fst).map
          fun index => (positiveIndices inputValues)[index]?.getD 0 := by simp
    rw [hmap]
    refine List.Nodup.map_on ?_ hsound.walletUses_nodup
    intro index hindex index' hindex' heq
    obtain ⟨note, hnote, rfl⟩ := List.mem_map.1 hindex
    obtain ⟨note', hnote', rfl⟩ := List.mem_map.1 hindex'
    obtain ⟨p, hp, -⟩ := getElem?_available havailable (hsound.walletUses_carried hnote)
    obtain ⟨p', hp', -⟩ := getElem?_available havailable (hsound.walletUses_carried hnote')
    rw [hp, hp'] at heq
    simp only [Option.getD_some] at heq
    exact (List.getElem?_inj (List.getElem?_eq_some_iff.1 hp).1
      (nodup_positiveIndices inputValues)).1 (by rw [hp, hp', heq])
  · intro note hmem
    obtain ⟨use, huse, rfl⟩ := List.mem_map.1 (hperm.mem_iff.1 hmem)
    obtain ⟨p, hp, hvalue⟩ := getElem?_available havailable (hsound.walletUses_carried huse)
    simpa [hp] using hvalue

/-- The value left after the funding notes and the fees is the change and the untouched inputs. -/
theorem Translated.remaining {available parts : List ℕ}
    (hsound : SoundPlan available fundingValues feePerStage preparation)
    (hpositive : ∀ v ∈ fundingValues, 0 < v)
    (havailable : available = (positiveIndices inputValues).map fun i => inputValues[i]?.getD 0)
    (h : Translated (positiveIndices inputValues) parts feePerStage preparation plan) :
    inputValues.sum = fundingValues.sum + feePerStage * plan.stages.length +
      (plan.changeOutputs.sum + (plan.untouched inputValues).sum) := by
  obtain ⟨hnodup, hcarried⟩ := h.originals hsound havailable
  have huntouched := sum_untouched hnodup hcarried
  have hconserved := hsound.conservation
  have hvalues : (plan.originals.map Prod.snd).sum =
      (preparation.directFunding.map Prod.snd).sum +
        (preparation.walletInputs.map Prod.snd).sum := by
    rw [(h.originals_perm.map Prod.snd).sum_eq, List.map_map]
    simp [PreparationPlan.walletUses, Function.comp_def]
  have hfunding := hsound.fundingNotes_perm.sum_eq
  rw [List.filter_eq_self.2 (by simpa using hpositive), PreparationPlan.fundingNotes,
    List.sum_append] at hfunding
  have hstages : plan.stages.length = preparation.transactions.length := by
    rw [← h.stages.length_eq, PreparationPlan.transactions, ← map_snd_locatedTransactions,
      List.length_map]
  have hchange : plan.changeOutputs = preparation.residualNotes :=
    filter_change_eq h.outputs
  rw [hstages, hchange, PaddedDenominationPlan.untouched]
  omega

/-- An affordable list of crossings is prepared soundly. -/
theorem soundPlan_of_affordable {S : PlannerSorts} {context : PlanningContext}
    {minimumOutput : ℕ} {crossings : List ℕ} {funding : List ℕ}
    (hcontext : planningContext inputValues feePerStage minimumOutput = .ok (some context))
    (h : preparationForCrossings S context crossings feePerStage migrationFee =
      .ok (some (funding, preparation))) :
    SoundPlan (context.available.map Zatoshis.val) (crossings.map (· + migrationFee)) feePerStage
        preparation ∧
      ∀ tx ∈ preparation.transactions, (tx.inputs.map PrepInput.value).sum < u64Size := by
  obtain ⟨-, -, havailable, hfee, -⟩ := planningContext_eq_some hcontext
  obtain ⟨rfl, ⟨typed, htyped, hplan⟩, -, hlt⟩ := preparationForCrossings_eq_some.1 h
  have hsound := planPreparation_sound_of_committed (by rw [htyped, hfee]; exact hlt) hplan
  rw [htyped, hfee] at hsound
  refine ⟨hsound.1, fun tx htx => (hsound.2 tx htx).trans_lt ?_⟩
  exact (planPreparation_totals hplan).1.trans_lt (by decide)

theorem zipIdx_map_some (l : List ℕ) :
    l.zipIdx.map (Prod.fst ∘ fun part : ℕ × ℕ => (some part.2, part.1)) =
      (List.range l.length).map some := by
  rw [List.range_eq_range', ← List.zipIdx_map_snd, List.map_map]
  rfl

theorem positive_crossings {crossings : List ℕ}
    (h : ∀ d ∈ crossings, isZip318CanonicalDenomination d) :
    ∀ v ∈ crossings.map (· + migrationFee), 0 < v := by
  intro v hv
  obtain ⟨d, hd, rfl⟩ := List.mem_map.1 hv
  have hmin := (bounds_of_isZip318CanonicalDenomination (h d hd)).1
  have hpos : 0 < zip318MaxResidualValueZatoshi := by decide
  omega

/-- The value of the selected notes that is left after the funding notes and the fees. -/
def remainingValue (context : PlanningContext) (crossings : List ℕ) (transactionCount feePerStage
    migrationFee : ℕ) : ℕ :=
  context.totalInput - (crossings.map (· + migrationFee)).sum - feePerStage * transactionCount

/-- What a plan of affordable crossings records. -/
def recordedDenominations (context : PlanningContext) (crossings : List ℕ)
    (transactionCount feePerStage migrationFee : ℕ) : DenominationPlan :=
  let remaining := remainingValue context crossings transactionCount feePerStage migrationFee
  { migrationOutputs := sortDescending crossings
    orchardChange := if 1 ≤ remaining then some remaining else none
    splitFee := feePerStage * transactionCount
    migrationFee
    totalInput := context.totalInput
    totalMigratable := crossings.sum }

/-- Affordable crossings are finished with the translation of their preparation. -/
theorem finishPlan_of_translated {S : PlannerSorts} {context : PlanningContext}
    {crossings : List ℕ} (hne : crossings ≠ [])
    (hle : (crossings.map (· + migrationFee)).sum + feePerStage * preparation.transactionCount ≤
      context.totalInput)
    (hlt : (crossings.map (· + migrationFee)).sum + feePerStage * preparation.transactionCount <
      u64Size)
    (hplan : translatePreparationPlan preparation (recordedDenominations context crossings
      preparation.transactionCount feePerStage migrationFee) context.positiveInputIndices
      ((sortDescending crossings).map (· + migrationFee)) feePerStage = .ok plan) :
    finishPlan S context crossings (crossings.map (· + migrationFee)) preparation feePerStage
      migrationFee 1 = .ok (some plan) := by
  have hfunding : (crossings.map (· + migrationFee)).sum =
      ((sortDescending crossings).map (· + migrationFee)).sum :=
    ((perm_sortDescending crossings).symm.map _).sum_eq
  have hcrossings := sum_le_sum_map_add crossings migrationFee
  have hfst : ((sortDescending crossings).map fun c => (c, c + migrationFee)).map Prod.fst =
      sortDescending crossings := by simp [Function.comp_def]
  have hsnd : ((sortDescending crossings).map fun c => (c, c + migrationFee)).map Prod.snd =
      (sortDescending crossings).map (· + migrationFee) := by simp
  rw [finishPlan, if_neg (by simpa using hne), sort_parts]
  simp only [hfst, hsnd, bind_eq_ok, ensure_eq_ok, orError_eq_ok, checkedMul_eq_some,
    checkedSum_eq_ok, Option.bind_eq_some_iff, checkedSub_eq_some, pure_eq_ok, Option.some.injEq,
    List.length_map, sum_sortDescending]
  refine ⟨(), trivial, _, ⟨by omega, rfl⟩, _, ⟨rfl, by omega⟩,
    remainingValue context crossings preparation.transactionCount feePerStage migrationFee,
    ⟨_, ⟨by omega, rfl⟩, by omega, ?_⟩, _, ⟨rfl, by omega⟩, plan, hplan, rfl⟩
  rw [remainingValue, hfunding]

theorem orchardChange_recordedDenominations (context : PlanningContext) (crossings : List ℕ)
    (transactionCount : ℕ) :
    (recordedDenominations context crossings transactionCount feePerStage
      migrationFee).orchardChange.getD 0 =
      remainingValue context crossings transactionCount feePerStage migrationFee := by
  simp only [recordedDenominations]
  split_ifs with hpos
  · rfl
  · rw [Option.getD_none]
    omega

/-- A translation with the recorded denominations is accounted for. -/
theorem Translated.accounting {context : PlanningContext} {crossings : List ℕ}
    (hcanonical : ∀ d ∈ crossings, isZip318CanonicalDenomination d)
    (htotal : context.totalInput = inputValues.sum)
    (havailable : context.available.map Zatoshis.val =
      (positiveIndices inputValues).map fun i => inputValues[i]?.getD 0)
    (hsound : SoundPlan (context.available.map Zatoshis.val) (crossings.map (· + migrationFee))
      feePerStage preparation)
    (hle : (crossings.map (· + migrationFee)).sum + feePerStage * preparation.transactionCount ≤
      context.totalInput)
    (hdenominations : plan.denominations = recordedDenominations context crossings
      preparation.transactionCount feePerStage migrationFee)
    (h : Translated (positiveIndices inputValues)
      ((sortDescending crossings).map (· + migrationFee)) feePerStage preparation plan) :
    PlanAccounting inputValues feePerStage migrationFee plan := by
  have hstages : plan.stages.length = preparation.transactionCount := by
    rw [← h.stages.length_eq, PreparationPlan.transactionCount, ← List.length_flatten,
      ← map_snd_locatedTransactions, List.length_map]
  have hadd : (crossings.map (· + migrationFee)).sum =
      crossings.sum + crossings.length * migrationFee := by
    simp [List.sum_map_add]
  have hremaining := h.remaining hsound (positive_crossings hcanonical) havailable
  have hchange : plan.denominations.orchardChange.getD 0 =
      remainingValue context crossings preparation.transactionCount feePerStage migrationFee := by
    rw [hdenominations, orchardChange_recordedDenominations]
  have hnotes := h.migrationNotes_perm
  rw [hstages] at hremaining
  constructor
  · rw [hdenominations]
    exact pairwise_sortDescending crossings
  · rw [hdenominations]
    exact fun d hd => hcanonical d (by simpa [recordedDenominations] using hd)
  · rw [hdenominations]
    have hnumbers := hnotes.map Prod.fst
    rw [List.map_map, zipIdx_map_some, List.length_map] at hnumbers
    exact hnumbers
  · intro index value hmem
    obtain ⟨⟨v, i⟩, hin, heq⟩ := List.mem_map.1 (hnotes.mem_iff.1 hmem)
    cases heq
    rw [List.mk_mem_zipIdx_iff_getElem?, List.getElem?_map, Option.map_eq_some_iff] at hin
    obtain ⟨d, hd, rfl⟩ := hin
    rw [hdenominations]
    exact ⟨d, hd, rfl⟩
  · exact (h.originals hsound havailable).1
  · exact fun index value hmem => (h.originals hsound havailable).2 _ hmem
  · exact fun index stage hstage s o value hin => h.prior_carried hsound hstage hin
  · rw [hchange, hdenominations]
    simp only [recordedDenominations, remainingValue, sum_sortDescending, length_sortDescending]
    omega
  · rw [hdenominations, ← htotal]
    rfl
  · rw [hdenominations, hstages]
    rfl
  · rw [hchange, remainingValue]
    omega

/-- An affordable list of canonical crossings is finished, and accounted for. -/
theorem finishPlan_accounting {S : PlannerSorts} {context : PlanningContext} {minimumOutput : ℕ}
    {crossings : List ℕ} {funding : List ℕ}
    (hcontext : planningContext inputValues feePerStage minimumOutput = .ok (some context))
    (hcanonical : ∀ d ∈ crossings, isZip318CanonicalDenomination d) (hne : crossings ≠ [])
    (h : preparationForCrossings S context crossings feePerStage migrationFee =
      .ok (some (funding, preparation))) :
    ∃ plan, finishPlan S context crossings funding preparation feePerStage migrationFee
        minimumOutput = .ok (some plan) ∧
      PlanAccounting inputValues feePerStage migrationFee plan := by
  obtain ⟨hpositions, htotal, havailable, -, rfl⟩ := planningContext_eq_some hcontext
  obtain ⟨hsound, hrange⟩ := soundPlan_of_affordable hcontext h
  obtain ⟨rfl, -, hle, hlt⟩ := preparationForCrossings_eq_some.1 h
  have hparts : (crossings.map (· + migrationFee)).Perm
      ((sortDescending crossings).map (· + migrationFee)) :=
    (perm_sortDescending crossings).symm.map _
  have hlength : (positiveIndices inputValues).length =
      (context.available.map Zatoshis.val).length := by rw [havailable, List.length_map]
  obtain ⟨plan, hplan, hdenominations, htranslated⟩ := translatePreparationPlan_ok hsound
    (positive_crossings hcanonical) hlength hrange hparts (recordedDenominations context crossings
      preparation.transactionCount feePerStage migrationFee)
  rw [← hpositions] at hplan
  exact ⟨plan, finishPlan_of_translated hne hle hlt hplan,
    htranslated.accounting hcanonical htotal havailable hsound hle hdenominations⟩

/-- The entry points of the planner. -/
inductive PlannedBy (S : PlannerSorts) (inputValues : List ℕ)
    (feePerStage migrationFee minimumOutput : ℕ) (plan : PaddedDenominationPlan) : Prop
  | random {σ : Type} (policy : DenominationRefinementPolicy) (nextU32 : σ → ℕ × σ) (rng : σ)
      (h : planPaddedDenominationsWithPolicyAndRng S inputValues feePerStage migrationFee
        minimumOutput policy nextU32 rng = .ok (some plan))
  | withoutRefinement
      (h : planPaddedDenominationsWithoutRefinement S inputValues feePerStage migrationFee
        minimumOutput = .ok (some plan))
  | forTargets (targetValues : List ℕ)
      (h : planPaddedDenominationsForTargets S inputValues targetValues feePerStage migrationFee
        minimumOutput = .ok (some plan))

/-- A plan of the search is accounted for. -/
theorem planWithRefiner_accounting {σ : Type} {refine : ℕ → σ → DenominationRefinement × σ}
    {S : PlannerSorts} {minimumOutput : ℕ} {rng : σ}
    (h : planPaddedDenominationsWithRefiner refine S inputValues feePerStage migrationFee
      minimumOutput rng = .ok (some plan)) :
    PlanAccounting inputValues feePerStage migrationFee plan := by
  simp only [planPaddedDenominationsWithRefiner, bind_eq_ok] at h
  obtain ⟨context?, hcontext, h⟩ := h
  split at h
  · cases h
  · rename_i context
    simp only [bind_eq_ok, orError_eq_ok, checkedAdd_eq_some] at h
    obtain ⟨-, ⟨hfee, -⟩, final, hfinal, h⟩ := h
    obtain ⟨hvalid, -⟩ := searchLoop_settled hfee ⟨by simp, rfl, by simp⟩ hfinal
    rw [hvalid.funding] at h
    obtain ⟨hne, -⟩ := finishPlan_outputs h
    have haffordable := hvalid.affordable hne
    rw [hvalid.funding] at haffordable
    obtain ⟨plan', hplan', haccounting⟩ := finishPlan_accounting hcontext hvalid.canonical hne
      haffordable
    rw [hplan'] at h
    cases h
    exact haccounting

/-- A plan for approved targets is accounted for. -/
theorem planForTargets_accounting {S : PlannerSorts} {minimumOutput : ℕ}
    {targetValues : List ℕ}
    (h : planPaddedDenominationsForTargets S inputValues targetValues feePerStage migrationFee
      minimumOutput = .ok (some plan)) :
    PlanAccounting inputValues feePerStage migrationFee plan := by
  unfold planPaddedDenominationsForTargets at h
  split_ifs at h with hempty
  · cases h
  · simp only [bind_eq_ok, ensure_eq_ok] at h
    obtain ⟨units, hunits, -, -, context?, hcontext, h⟩ := h
    split at h
    · cases h
    · rename_i context
      simp only [bind_eq_ok] at h
      obtain ⟨trial, htrial, h⟩ := h
      split at h
      · cases h
      · rename_i funding preparation
        simp only [bind_eq_ok, ensure_eq_ok] at h
        obtain ⟨-, -, -, -, h⟩ := h
        have hcanonical : ∀ d ∈ targetValues, isZip318CanonicalDenomination d := by
          intro d hd
          obtain ⟨i, hi⟩ := List.mem_iff_getElem?.1 hd
          obtain ⟨u, -, hu⟩ := forall₂_getElem?_left (mapM_eq_ok.1 hunits) hi
          exact ensure_eq_ok.1 hu
        obtain ⟨plan', hplan', haccounting⟩ := finishPlan_accounting hcontext hcanonical
          (by simpa using hempty) htrial
        rw [hplan'] at h
        cases h
        exact haccounting

/-- Every plan of the entry points is accounted for, and the preparation of affordable canonical
crossings always translates. -/
theorem paddedPlan_accounting (S : PlannerSorts) (inputValues : List ℕ)
    (feePerStage migrationFee minimumOutput : ℕ) :
    (∀ plan, PlannedBy S inputValues feePerStage migrationFee minimumOutput plan →
      PlanAccounting inputValues feePerStage migrationFee plan) ∧
    ∀ (context : PlanningContext) (crossings funding : List ℕ) (preparation : PreparationPlan)
      (denominations : DenominationPlan),
      planningContext inputValues feePerStage minimumOutput = .ok (some context) →
      (∀ d ∈ crossings, isZip318CanonicalDenomination d) →
      preparationForCrossings S context crossings feePerStage migrationFee =
        .ok (some (funding, preparation)) →
      ∃ plan, translatePreparationPlan preparation denominations context.positiveInputIndices
        ((S.parts.sort (crossings.zip funding)).map Prod.snd) feePerStage = .ok plan := by
  constructor
  · intro plan hplanned
    cases hplanned with
    | random policy nextU32 rng h => exact planWithRefiner_accounting h
    | withoutRefinement h => exact planWithRefiner_accounting h
    | forTargets targetValues h => exact planForTargets_accounting h
  · intro context crossings funding preparation denominations hcontext hcanonical h
    obtain ⟨hpositions, -, havailable, -⟩ := planningContext_eq_some hcontext
    obtain ⟨hsound, hrange⟩ := soundPlan_of_affordable hcontext h
    obtain ⟨rfl, -⟩ := preparationForCrossings_eq_some.1 h
    have hparts : (crossings.map (· + migrationFee)).Perm
        ((S.parts.sort (crossings.zip (crossings.map (· + migrationFee)))).map Prod.snd) := by
      simpa [sort_parts, Function.comp_def] using (perm_sortDescending crossings).symm.map _
    have hlength : (positiveIndices inputValues).length =
        (context.available.map Zatoshis.val).length := by rw [havailable, List.length_map]
    obtain ⟨plan, hplan, -⟩ := translatePreparationPlan_ok hsound
      (positive_crossings hcanonical) hlength hrange hparts denominations
    rw [hpositions]
    exact ⟨plan, hplan⟩

/-- The preparation behind `twoPartPlan`. -/
def twoPartPreparation : PreparationPlan where
  layers := [[⟨[.wallet 1 1_200_000], [.funding 1_015_000, .change 105_000]⟩]]
  directFunding := [(0, 2_015_000)]

theorem paddedPlan_accounting_two :
    PlanAccounting [2_015_000, 1_200_000] 80_000 15_000 twoPartPlan ∧
      ∃ plan, translatePreparationPlan twoPartPreparation twoPartPlan.denominations [0, 1]
        [2_015_000, 1_015_000] 80_000 = .ok plan :=
  let sorts : PlannerSorts := ⟨.ofInsertion _, .ofInsertion _⟩
  have haccounting := paddedPlan_accounting sorts [2_015_000, 1_200_000] 80_000 15_000 1
  ⟨haccounting.1 twoPartPlan (.forTargets [2_000_000, 1_000_000] (by decide +kernel)),
    haccounting.2 ⟨[0, 1], 3_215_000, [⟨2_015_000, by decide⟩, ⟨1_200_000, by decide⟩],
      ⟨80_000, by decide⟩⟩ [1_000_000, 2_000_000] [1_015_000, 2_015_000] twoPartPreparation
      twoPartPlan.denominations (by rfl) (by decide +kernel) (by decide +kernel)⟩

end VizorWallet.Migration
