import VizorWallet.Migration.Split.Plan

/-!
# Replaying an approved plan

A random plan is rebuilt exactly from its denominations.  The preparation planner does not see
the order of the crossings, and the search stops only where no further denomination can be
appended, which is what the replay checks.

## Main results

* `preparationForCrossings_perm` — the order of the crossings does not matter.
* `searchLoop_settled` — where the search stops, nothing can be appended.
* `planPaddedDenominations_replay` — the replay gives the same plan.
-/

namespace VizorWallet.Migration

variable {S : PlannerSorts} {context : PlanningContext} {feePerStage migrationFee : ℕ}

/-! ## The order of the crossings -/

theorem fundingTargets_perm {funding funding' : List Zatoshis} (h : funding.Perm funding') :
    fundingTargets funding = fundingTargets funding' :=
  sortDescending_congr ((h.map _).filter _)

theorem validateTotals_perm {available funding funding' : List Zatoshis}
    (h : funding.Perm funding') :
    validateTotals available funding = validateTotals available funding' := by
  unfold validateTotals
  rw [Zatoshis.sum_eq funding, Zatoshis.sum_eq funding', (h.map Zatoshis.val).sum_eq]

/-- The preparation planner does not see the order of the funding values. -/
theorem planPreparation_perm {available funding funding' : List Zatoshis} {feePerTx : Zatoshis}
    (h : funding.Perm funding') :
    planPreparation S.notes available funding feePerTx =
      planPreparation S.notes available funding' feePerTx := by
  unfold planPreparation planPreparationGreedy planPreparationViaConsolidation
  rw [fundingTargets_perm h, validateTotals_perm h]

/-- Amounts can be put in the order of their values. -/
theorem exists_typed_perm {values values' : List ℕ} {typed : List Zatoshis}
    (h : values.Perm values') (htyped : typed.map Zatoshis.val = values) :
    ∃ typed' : List Zatoshis, typed'.map Zatoshis.val = values' ∧ typed.Perm typed' := by
  have hle : ∀ v ∈ values', v ≤ maxMoney := by
    intro v hv
    rw [← h.mem_iff, ← htyped] at hv
    obtain ⟨z, -, rfl⟩ := List.mem_map.1 hv
    exact z.le_maxMoney
  have hval : Function.Injective Zatoshis.val := fun a b hab => by
    cases a
    cases b
    cases hab
    rfl
  refine ⟨values'.pmap (fun v hv => ⟨v, hv⟩) hle, ?_, ?_⟩
  · rw [List.map_pmap]
    simp
  · rw [← List.map_perm_map_iff hval, htyped, List.map_pmap]
    simpa using h

theorem preparationForCrossings_eq_none {crossingValues : List ℕ} :
    preparationForCrossings S context crossingValues feePerStage migrationFee = .ok none ↔
      ∃ typedFunding : List Zatoshis,
        typedFunding.map Zatoshis.val = crossingValues.map (· + migrationFee) ∧
        (planPreparation S.notes context.available typedFunding context.prepFee =
            .error .insufficientFunds ∨
          ∃ preparation, planPreparation S.notes context.available typedFunding context.prepFee =
              .ok preparation ∧
            context.totalInput < (crossingValues.map (· + migrationFee)).sum +
              feePerStage * preparation.transactionCount ∧
            (crossingValues.map (· + migrationFee)).sum +
              feePerStage * preparation.transactionCount < u64Size) := by
  simp only [preparationForCrossings, bind_eq_ok, mapM_orError_eq_ok, map_checkedAdd_eq,
    map_ofNat?_eq]
  constructor
  · rintro ⟨funding, ⟨rfl, -⟩, typed, htyped, h⟩
    refine ⟨typed, htyped, ?_⟩
    split at h
    · rename_i hplan
      exact .inl hplan
    · cases h
    · rename_i plan hplan
      simp only [bind_eq_ok, committedValue_eq_ok, pure_eq_ok] at h
      obtain ⟨committed, ⟨rfl, hlt⟩, h⟩ := h
      split_ifs at h with hle
      exact .inr ⟨plan, hplan, by omega, hlt⟩
  · rintro ⟨typed, htyped, h⟩
    refine ⟨_, ⟨rfl, fun v hv => ?_⟩, typed, htyped, ?_⟩
    · rw [← htyped] at hv
      obtain ⟨z, -, rfl⟩ := List.mem_map.1 hv
      exact z.le_maxMoney.trans_lt (by decide)
    · obtain hplan | ⟨plan, hplan, hgt, hlt⟩ := h
      · rw [hplan]
        rfl
      · rw [hplan]
        simp only [bind_eq_ok, committedValue_eq_ok, pure_eq_ok]
        exact ⟨_, ⟨rfl, hlt⟩, if_neg (by omega)⟩

/-- Crossings in another order are unaffordable alike. -/
theorem preparationForCrossings_none_perm {crossings crossings' : List ℕ}
    (h : crossings.Perm crossings')
    (hnone : preparationForCrossings S context crossings feePerStage migrationFee = .ok none) :
    preparationForCrossings S context crossings' feePerStage migrationFee = .ok none := by
  rw [preparationForCrossings_eq_none] at hnone ⊢
  obtain ⟨typed, htyped, hplan⟩ := hnone
  obtain ⟨typed', htyped', hperm⟩ := exists_typed_perm (h.map (· + migrationFee)) htyped
  refine ⟨typed', htyped', ?_⟩
  rwa [← planPreparation_perm hperm, ← (h.map (· + migrationFee)).sum_eq]

/-- Crossings in another order have the same preparation. -/
theorem preparationForCrossings_perm {crossings crossings' fundingValues : List ℕ}
    {preparation : PreparationPlan} (h : crossings.Perm crossings')
    (hsome : preparationForCrossings S context crossings feePerStage migrationFee =
      .ok (some (fundingValues, preparation))) :
    preparationForCrossings S context crossings' feePerStage migrationFee =
      .ok (some (crossings'.map (· + migrationFee), preparation)) := by
  rw [preparationForCrossings_eq_some] at hsome ⊢
  obtain ⟨rfl, ⟨typed, htyped, hplan⟩, hle, hlt⟩ := hsome
  obtain ⟨typed', htyped', hperm⟩ := exists_typed_perm (h.map (· + migrationFee)) htyped
  rw [← (h.map (· + migrationFee)).sum_eq]
  exact ⟨rfl, ⟨typed', htyped', planPreparation_perm hperm ▸ hplan⟩, hle, hlt⟩

/-! ## Where the search stops -/

variable {σ : Type} {refine : ℕ → σ → DenominationRefinement × σ}

theorem firstAffordable_eq_none {crossingValues : List ℕ} {candidates : List (List ℕ)}
    (h : firstAffordable S context crossingValues feePerStage migrationFee candidates = .ok none) :
    ∀ candidate ∈ candidates, preparationForCrossings S context (crossingValues ++ candidate)
      feePerStage migrationFee = .ok none := by
  induction candidates with
  | nil => simp
  | cons candidate rest ih =>
    simp only [firstAffordable, bind_eq_ok] at h
    obtain ⟨trial, htrial, h⟩ := h
    split at h
    · cases h
    · intro c hc
      obtain rfl | hc := List.mem_cons.1 hc
      · exact htrial
      · exact ih h c hc

/-- The unsplit denomination is always a candidate, so a search that accepts nothing shows that
nothing can be appended. -/
theorem canAppendFrom_of_search {crossingValues targets : List ℕ} {affordable : ℕ} {rng rng' : σ}
    (h : searchDenomination refine S context crossingValues feePerStage migrationFee affordable
      rng = .ok (none, rng'))
    (hperm : crossingValues.Perm targets) :
    canAppendFrom S context targets feePerStage migrationFee affordable = .ok false := by
  fun_induction searchDenomination refine S context crossingValues feePerStage migrationFee
    affordable rng with
  | case1 affordable rng hlow => rw [canAppendFrom, if_pos hlow]
  | case2 affordable rng hlow hnone =>
    rw [canAppendFrom, if_neg hlow]
    split
    · rfl
    · simp_all
  | case3 affordable rng hlow greedy hgreedy refinement rng₁ hrefine ih =>
    simp only [bind_eq_ok, ensure_eq_ok] at h
    obtain ⟨-, hvalue, candidates, hcandidates, accepted, haccepted, h⟩ := h
    split at h
    · simp at h
    · have hroot := (refinementCandidates_spec refinement candidates hcandidates).1
      rw [hvalue] at hroot
      have htrial := preparationForCrossings_none_perm (hperm.append_right [greedy])
        (firstAffordable_eq_none haccepted _ hroot)
      rw [canAppendFrom, if_neg hlow]
      split
      · rfl
      · rename_i crossing hcrossing
        obtain rfl : greedy = crossing := Option.some.inj (hgreedy.symm.trans hcrossing)
        rw [htrial, ok_bind]
        by_cases hmin : greedy = zip318MaxResidualValueZatoshi
        · simp [hmin, pure, Except.pure]
        · rw [if_neg hmin] at h
          simpa [hmin] using ih h

/-- The crossings chosen so far are canonical and, unless there are none, affordable. -/
structure SearchState.Valid (S : PlannerSorts) (context : PlanningContext)
    (feePerStage migrationFee : ℕ) (state : SearchState) : Prop where
  canonical : ∀ d ∈ state.crossingValues, isZip318CanonicalDenomination d
  funding : state.fundingValues = state.crossingValues.map (· + migrationFee)
  affordable : state.crossingValues ≠ [] →
    preparationForCrossings S context state.crossingValues feePerStage migrationFee =
      .ok (some (state.fundingValues, state.preparation))

theorem Extends.valid {state next : SearchState}
    (hstate : state.Valid S context feePerStage migrationFee)
    (h : Extends S context feePerStage migrationFee state.crossingValues next) :
    next.Valid S context feePerStage migrationFee where
  canonical d hd := by
    obtain ⟨value, candidate, -, hsplits, happend⟩ := h.appended
    rw [happend] at hd
    obtain hd | hd := List.mem_append.1 hd
    · exact hstate.canonical d hd
    · exact hsplits.canonical d hd
  funding := (preparationForCrossings_eq_some.1 h.affordable).1
  affordable _ := h.affordable

/-- Nothing can be appended to the crossings of a state, in whatever order. -/
def Settled (S : PlannerSorts) (context : PlanningContext) (feePerStage migrationFee : ℕ)
    (state : SearchState) : Prop :=
  ∀ targets : List ℕ, state.crossingValues.Perm targets →
    canAppendCanonicalDenomination S context targets (targets.map (· + migrationFee))
      state.preparation feePerStage migrationFee = .ok false

/-- The search stops in a valid state to which nothing can be appended. -/
theorem searchLoop_settled {state final : SearchState} {rng : σ}
    (hfee : zip318MaxResidualValueZatoshi + migrationFee < u64Size)
    (hstate : state.Valid S context feePerStage migrationFee)
    (h : searchLoop refine S context feePerStage migrationFee state rng = .ok final) :
    final.Valid S context feePerStage migrationFee ∧
      Settled S context feePerStage migrationFee final := by
  have hsettled : ∀ (state : SearchState) (committed : ℕ),
      state.Valid S context feePerStage migrationFee →
      committedValue state.fundingValues state.preparation feePerStage = .ok committed →
      (context.totalInput - committed < zip318MaxResidualValueZatoshi + migrationFee ∨
        ∀ targets : List ℕ, state.crossingValues.Perm targets →
          canAppendFrom S context targets feePerStage migrationFee
            (min (context.totalInput - committed - migrationFee)
              zip318MaxMigrationDenominationZatoshi) = .ok false) →
      Settled S context feePerStage migrationFee state := by
    intro state committed hstate hcommitted hstop targets hperm
    have hsame : committedValue (targets.map (· + migrationFee)) state.preparation feePerStage =
        .ok committed := by
      rw [committedValue_eq_ok] at hcommitted ⊢
      rwa [← (hperm.map (· + migrationFee)).sum_eq, ← hstate.funding]
    have hmin : checkedAdd zip318MaxResidualValueZatoshi migrationFee =
        some (zip318MaxResidualValueZatoshi + migrationFee) := if_pos hfee
    rw [canAppendCanonicalDenomination, hsame, ok_bind, hmin, orError_some, ok_bind]
    obtain hlow | hnone := hstop
    · simp [hlow, pure, Except.pure]
    · by_cases hlow : context.totalInput - committed < zip318MaxResidualValueZatoshi + migrationFee
      · simp [hlow, pure, Except.pure]
      · simpa [hlow] using hnone targets hperm
  fun_induction searchLoop refine S context feePerStage migrationFee state rng with
  | case1 => cases h
  | case2 state rng committed hcommitted budget hlow =>
    obtain rfl := Except.ok.inj h
    exact ⟨hstate, hsettled state committed hstate hcommitted (.inl hlow)⟩
  | case3 => cases h
  | case4 state rng committed hcommitted budget hbudget rng' hnone =>
    obtain rfl := Except.ok.inj h
    exact ⟨hstate, hsettled state committed hstate hcommitted
      (.inr fun targets hperm => canAppendFrom_of_search hnone hperm)⟩
  | case5 state rng committed hcommitted budget hbudget next rng' hnext =>
    rename_i ih
    exact ih ((searchDenomination_extends refine hnext).valid hstate) h

/-! ## The finished plan -/

/-- Sorting the parts orders the denominations; each funding value follows its denomination. -/
theorem sort_parts (S : PlannerSorts) (crossings : List ℕ) (migrationFee : ℕ) :
    S.parts.sort (crossings.zip (crossings.map (· + migrationFee))) =
      (sortDescending crossings).map fun c => (c, c + migrationFee) := by
  have hzip : crossings.zip (crossings.map (· + migrationFee)) =
      crossings.map fun c => (c, c + migrationFee) := by
    simpa using List.zip_map' (f := id) (g := (· + migrationFee)) (l := crossings)
  have hmem : ∀ l : List ℕ, ∀ a ∈ l.map fun c => (c, c + migrationFee),
      a.2 = a.1 + migrationFee := by
    intro l a ha
    obtain ⟨c, -, rfl⟩ := List.mem_map.1 ha
    rfl
  rw [hzip]
  refine List.Perm.eq_of_pairwise ?_ (S.parts.sorted _) ?_
    ((S.parts.perm _).trans ((perm_sortDescending crossings).map _).symm)
  · intro a b ha hb hab hba
    have ha' := hmem _ a ((S.parts.mem_sort).1 ha)
    have hb' := hmem _ b hb
    exact Prod.ext (by omega) (by omega)
  · exact List.pairwise_map.2 (pairwise_sortDescending crossings)

/-- The finished plan does not see the order of the crossings. -/
theorem finishPlan_perm {crossings crossings' : List ℕ} (h : crossings.Perm crossings')
    (preparation : PreparationPlan) (minimumOutput : ℕ) :
    finishPlan S context crossings (crossings.map (· + migrationFee)) preparation feePerStage
        migrationFee minimumOutput =
      finishPlan S context crossings' (crossings'.map (· + migrationFee)) preparation feePerStage
        migrationFee minimumOutput := by
  have hempty : crossings.isEmpty = crossings'.isEmpty := by
    rw [Bool.eq_iff_iff, List.isEmpty_iff, List.isEmpty_iff]
    exact ⟨fun hnil => by simpa [hnil] using h, fun hnil => by simpa [hnil] using h⟩
  unfold finishPlan
  rw [sort_parts, sort_parts, sortDescending_congr h, hempty]
  simp only [List.length_map]

/-- The denominations of a finished plan are the crossings, largest first. -/
theorem finishPlan_outputs {crossings : List ℕ} {preparation : PreparationPlan}
    {minimumOutput : ℕ} {plan : PaddedDenominationPlan}
    (h : finishPlan S context crossings (crossings.map (· + migrationFee)) preparation feePerStage
      migrationFee minimumOutput = .ok (some plan)) :
    crossings ≠ [] ∧ plan.denominations.migrationOutputs = sortDescending crossings := by
  unfold finishPlan at h
  split_ifs at h with hempty
  · cases h
  · refine ⟨by simpa using hempty, ?_⟩
    rw [sort_parts] at h
    simp only [translatePreparationPlan, bind_eq_ok, pure_eq_ok, Option.some.injEq,
      List.map_map] at h
    obtain ⟨-, -, fee, -, total, -, remaining, -, migratable, -, plan', ⟨direct, -, state, -, -, -,
      rfl⟩, rfl⟩ := h
    simp [Function.comp_def]

/-- An approved plan is rebuilt exactly from its denominations. -/
theorem planPaddedDenominations_replay {σ : Type} {S : PlannerSorts} {inputValues : List ℕ}
    {feePerStage migrationFee minimumOutput : ℕ} {policy : DenominationRefinementPolicy}
    {nextU32 : σ → ℕ × σ} {rng : σ} {plan : PaddedDenominationPlan}
    (h : planPaddedDenominationsWithPolicyAndRng S inputValues feePerStage migrationFee
      minimumOutput policy nextU32 rng = .ok (some plan)) :
    planPaddedDenominationsForTargets S inputValues plan.denominations.migrationOutputs
      feePerStage migrationFee minimumOutput = .ok (some plan) := by
  simp only [planPaddedDenominationsWithPolicyAndRng, planPaddedDenominationsWithRefiner,
    bind_eq_ok] at h
  obtain ⟨context?, hcontext, h⟩ := h
  split at h
  · cases h
  · rename_i context
    simp only [bind_eq_ok, orError_eq_ok, checkedAdd_eq_some] at h
    obtain ⟨-, ⟨hfee, -⟩, final, hfinal, h⟩ := h
    obtain ⟨hvalid, hsettled⟩ := searchLoop_settled hfee ⟨by simp, rfl, by simp⟩ hfinal
    rw [hvalid.funding] at h
    obtain ⟨hne, houtputs⟩ := finishPlan_outputs h
    have hperm := (perm_sortDescending final.crossingValues).symm
    have hprep := preparationForCrossings_perm hperm (hvalid.affordable hne)
    obtain ⟨units, hunits⟩ : ∃ units, ((sortDescending final.crossingValues).mapM fun value =>
        ensure (isZip318CanonicalDenomination value)
          s!"Approved migration denomination {value} is not canonical") = .ok units := by
      refine ⟨(sortDescending final.crossingValues).map fun _ => (), mapM_eq_ok.2 ?_⟩
      rw [List.forall₂_map_right_iff, List.forall₂_same]
      exact fun d hd => ensure_eq_ok.2 (hvalid.canonical d (by simpa using hd))
    have hnonempty : (sortDescending final.crossingValues).isEmpty = false := by
      rw [List.isEmpty_eq_false_iff, ← List.length_pos_iff, length_sortDescending]
      exact List.length_pos_iff.2 hne
    have horder : (sortDescending final.crossingValues).IsChain (· ≥ ·) :=
      (pairwise_sortDescending _).isChain
    rw [finishPlan_perm hperm] at h
    rw [houtputs]
    simpa only [planPaddedDenominationsForTargets, hnonempty, hunits, hcontext, hprep,
      hsettled _ hperm, ok_bind, ensure_of _ horder, ensure_of, Bool.false_eq_true, if_false]
      using h

/-- A plan of two parts, one of them already a funding note. -/
def twoPartPlan : PaddedDenominationPlan where
  denominations := ⟨[2_000_000, 1_000_000], some 105_000, 80_000, 15_000, 3_215_000, 3_000_000⟩
  stages := [⟨0, [.original 1 1_200_000],
    [⟨1_015_000, .migration, some 1⟩, ⟨105_000, .orchardChange, none⟩], 80_000, 3⟩]
  layerCount := 1
  directMigrationInputs := [⟨0, 0, 2_015_000⟩]

theorem planPaddedDenominations_replay_two :
    planPaddedDenominationsForTargets ⟨.ofInsertion _, .ofInsertion _⟩ [2_015_000, 1_200_000]
      twoPartPlan.denominations.migrationOutputs 80_000 15_000 1 = .ok (some twoPartPlan) :=
  @planPaddedDenominations_replay ℕ ⟨.ofInsertion _, .ofInsertion _⟩ [2_015_000, 1_200_000]
    80_000 15_000 1 aggressiveRefinementPolicy (fun rng => (rng, rng + 1)) 7 twoPartPlan
    (by decide +kernel)

end VizorWallet.Migration
