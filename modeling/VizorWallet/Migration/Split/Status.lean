import VizorWallet.Migration.Phase
import VizorWallet.Migration.Preparation.Merging
import VizorWallet.Migration.Split.Accounting

/-!
# The status of an idle wallet

Without an active run the migration status is read off the Orchard balance alone, with a fee for
one preparation transaction and one for the migration.  The planner reads the notes, so the two
agree on some lists of notes only.

## Main definitions

* `orchardBalanceCanCreateMigrationOutput` — whether the balance is worth a first denomination.
* `phaseWithoutRun` — the phase of a wallet that has no active run.

## Main results

* `planPaddedDenominationsWithoutRefinement_isSome` — when there is a plan.
* `status_agrees_iff` — when the status agrees with the planner.
-/

namespace VizorWallet.Migration

def migrationStatusFeeEstimateZatoshi : ℕ := 15_000

/-- The fee of one padded preparation transaction. -/
def denominationSplitStatusFeeEstimateZatoshi : ℕ := 80_000

def minIronwoodMigrationOutputZatoshi : ℕ := 1

/-! ## The status -/

/-- The denominations taken greedily from a value, and what they leave of it. -/
def takeDenominations (migrationFee remaining : ℕ) (outputs : List ℕ) :
    Except String (List ℕ × ℕ) :=
  match _hfee : checkedSub remaining migrationFee with
  | none => .ok (outputs, remaining)
  | some spendableAfterFee =>
    match _hlargest : largestZip318DenominationAtOrBelow spendableAfterFee with
    | none => .ok (outputs, remaining)
    | some denomination =>
      match _hrest : (checkedSub remaining denomination).bind (checkedSub · migrationFee) with
      | none => .error "Canonical denomination fee underflow"
      | some rest => takeDenominations migrationFee rest (outputs ++ [denomination])
termination_by remaining
decreasing_by
  have := largestZip318DenominationAtOrBelow_spec _hlargest
  have : 0 < zip318MaxResidualValueZatoshi := by decide
  grind [checkedSub]

def planDenominations (totalInput splitFee migrationFee minimumOutput : ℕ) :
    Except String DenominationPlan := do
  if totalInput ≤ splitFee then
    return {
      migrationOutputs := []
      orchardChange := none
      splitFee := totalInput
      migrationFee, totalInput
      totalMigratable := 0 }
  let remaining ← orError (checkedSub totalInput splitFee) "Denomination split fee underflow"
  let (outputs, remaining) ← takeDenominations migrationFee remaining []
  let orchardChange := if minimumOutput ≤ remaining then some remaining else none
  let totalMigratable ← checkedSum outputs "Migratable total overflow"
  return {
    migrationOutputs := outputs
    orchardChange, splitFee, migrationFee, totalInput, totalMigratable }

def orchardBalanceCanCreateMigrationOutput (orchardSpendable : ℕ) : Except String Bool := do
  if orchardSpendable = 0 then return false
  let plan ← planDenominations orchardSpendable denominationSplitStatusFeeEstimateZatoshi
    migrationStatusFeeEstimateZatoshi minIronwoodMigrationOutputZatoshi
  return !plan.migrationOutputs.isEmpty

/-- The phase of a wallet without an active run.  With nothing left to migrate, a completed run is
shown as the receipt. -/
def phaseWithoutRun (completedRun : Bool)
    (orchardSpendable orchardPending ironwoodSpendable ironwoodPending : ℕ) :
    Except String Phase := do
  let orchardMigratable ← orchardBalanceCanCreateMigrationOutput orchardSpendable
  return if orchardPending = 0 ∧ orchardMigratable = false ∧ completedRun = true then .complete
    else if 0 < orchardPending then .waitingForSpendableOrchard
    else if orchardMigratable = true then .readyToPrepare
    else if 0 < ironwoodSpendable then .complete
    else if 0 < ironwoodPending then .waitingForIronwoodSpendability
    else .noOrchardFunds

theorem largestZip318DenominationAtOrBelow_eq_none {value : ℕ} :
    largestZip318DenominationAtOrBelow value = none ↔ value < zip318MaxResidualValueZatoshi := by
  constructor
  · intro hnone
    by_contra hle
    obtain ⟨largest, hsome, -⟩ :=
      @le_largestZip318DenominationAtOrBelow value 1_000_000 (by decide +kernel) (not_lt.1 hle)
    rw [hnone] at hsome
    cases hsome
  · exact fun hlt => if_pos hlt

/-- The denominations taken, their fees and the rest make up the value, and none is taken only of
a value that is too small for the first one. -/
theorem takeDenominations_ok (migrationFee remaining : ℕ) (outputs : List ℕ) :
    ∃ taken rest, takeDenominations migrationFee remaining outputs = .ok (outputs ++ taken, rest) ∧
      taken.sum + rest ≤ remaining ∧
      (taken = [] ↔ remaining < zip318MaxResidualValueZatoshi + migrationFee) := by
  have hmin : 0 < zip318MaxResidualValueZatoshi := by decide
  fun_induction takeDenominations migrationFee remaining outputs with
  | case1 remaining outputs hfee =>
    refine ⟨[], remaining, by rw [List.append_nil], ?_, ?_⟩
    all_goals grind [checkedSub]
  | case2 remaining outputs spendable hfee hlargest =>
    have hlow := largestZip318DenominationAtOrBelow_eq_none.1 hlargest
    obtain ⟨hle, rfl⟩ := checkedSub_eq_some.1 hfee
    exact ⟨[], remaining, by rw [List.append_nil], by simp, by simp; omega⟩
  | case3 remaining outputs spendable hfee denomination hlargest hrest =>
    obtain ⟨hle, rfl⟩ := checkedSub_eq_some.1 hfee
    have hspec := largestZip318DenominationAtOrBelow_spec hlargest
    exfalso
    grind [checkedSub]
  | case4 remaining outputs spendable hfee denomination hlargest rest hrest ih =>
    obtain ⟨hle, rfl⟩ := checkedSub_eq_some.1 hfee
    have hspec := largestZip318DenominationAtOrBelow_spec hlargest
    obtain ⟨middle, hmiddle, hlast⟩ := Option.bind_eq_some_iff.1 hrest
    rw [checkedSub_eq_some] at hmiddle hlast
    obtain ⟨taken, final, hok, hsum, -⟩ := ih
    refine ⟨denomination :: taken, final, ?_, ?_, ?_⟩
    · rw [hok, List.append_assoc, List.singleton_append]
    · rw [List.sum_cons]
      omega
    · simp only [List.cons_ne_nil, false_iff]
      omega

/-- The least balance that the status takes to be worth a denomination. -/
theorem orchardBalanceCanCreateMigrationOutput_eq {orchardSpendable : ℕ}
    (hsize : orchardSpendable < u64Size) :
    orchardBalanceCanCreateMigrationOutput orchardSpendable =
      .ok (decide (1_095_000 ≤ orchardSpendable)) := by
  unfold orchardBalanceCanCreateMigrationOutput
  split_ifs with hzero
  · rw [hzero]
    rfl
  · rw [planDenominations]
    split_ifs with hlow
    · have hlt : ¬ 1_095_000 ≤ orchardSpendable := by
        unfold denominationSplitStatusFeeEstimateZatoshi at hlow
        omega
      rw [decide_eq_false hlt]
      rfl
    · obtain ⟨taken, rest, hok, hsum, hempty⟩ := takeDenominations_ok
        migrationStatusFeeEstimateZatoshi
        (orchardSpendable - denominationSplitStatusFeeEstimateZatoshi) []
      have htotal : checkedSum taken "Migratable total overflow" = .ok taken.sum :=
        checkedSum_eq_ok.2 ⟨rfl, by omega⟩
      have hsub : checkedSub orchardSpendable denominationSplitStatusFeeEstimateZatoshi =
          some (orchardSpendable - denominationSplitStatusFeeEstimateZatoshi) := if_pos (by omega)
      rw [hsub, orError_some, ok_bind, hok, ok_bind]
      dsimp only [List.nil_append]
      rw [htotal, ok_bind]
      have hiff : taken = [] ↔ ¬ 1_095_000 ≤ orchardSpendable := by
        rw [hempty]
        unfold denominationSplitStatusFeeEstimateZatoshi at hlow ⊢
        unfold zip318MaxResidualValueZatoshi migrationStatusFeeEstimateZatoshi
        omega
      by_cases hle : 1_095_000 ≤ orchardSpendable <;> simp_all

/-- The phase of a wallet with no Orchard value pending. -/
theorem phaseWithoutRun_eq {orchardSpendable : ℕ} (hsize : orchardSpendable < u64Size)
    (completedRun : Bool) (ironwoodSpendable ironwoodPending : ℕ) :
    phaseWithoutRun completedRun orchardSpendable 0 ironwoodSpendable ironwoodPending = .ok
      (if 1_095_000 ≤ orchardSpendable then .readyToPrepare
      else if completedRun = true ∨ 0 < ironwoodSpendable then .complete
      else if 0 < ironwoodPending then .waitingForIronwoodSpendability
      else .noOrchardFunds) := by
  rw [phaseWithoutRun, orchardBalanceCanCreateMigrationOutput_eq hsize, ok_bind]
  refine congrArg Except.ok ?_
  grind

/-! ## Affordable crossings -/

/-- The funding notes and the fees of a sound plan are paid out of the available notes. -/
theorem SoundPlan.committed_le {available funding : List ℕ} {fee : ℕ} {plan : PreparationPlan}
    (h : SoundPlan available funding fee plan) (hpositive : ∀ value ∈ available, 0 < value)
    (hfunding : ∀ value ∈ funding, 0 < value) :
    funding.sum + fee * plan.transactions.length ≤ available.sum := by
  have hused := @sum_untouched available _ h.walletUses_nodup fun note hnote =>
    ⟨h.walletUses_carried hnote,
      hpositive note.2 (List.mem_of_getElem? (h.walletUses_carried hnote))⟩
  have hconserved := h.conservation
  have hnotes := h.fundingNotes_perm.sum_eq
  rw [List.filter_eq_self.2 (by simpa using hfunding), PreparationPlan.fundingNotes,
    List.sum_append] at hnotes
  rw [PreparationPlan.walletUses, List.map_append, List.sum_append] at hused
  omega

/-- What the planner relies on: the available notes are positive, and they are worth no more than
all money. -/
structure PlanningContext.Funded (context : PlanningContext) (feePerStage : ℕ) : Prop where
  money : context.totalInput ≤ maxMoney
  total : (context.available.map Zatoshis.val).sum = context.totalInput
  positive : ∀ value ∈ context.available.map Zatoshis.val, 0 < value
  fee : context.prepFee.val = feePerStage
  fee_le : feePerStage ≤ zip318MaxResidualValueZatoshi

variable {S : PlannerSorts} {context : PlanningContext} {notes crossings : List ℕ}
  {feePerStage migrationFee : ℕ}

/-- The planner starts unless no note is positive. -/
theorem planningContext_ok (hmoney : notes.sum ≤ maxMoney) (hpositive : 0 < feePerStage)
    (hfee : feePerStage ≤ zip318MaxResidualValueZatoshi) :
    (planningContext notes feePerStage 1 = .ok none ∧ notes.filter (0 < ·) = []) ∨
      ∃ context, planningContext notes feePerStage 1 = .ok (some context) ∧
        context.Funded feePerStage ∧
        context.available.map Zatoshis.val = notes.filter (0 < ·) ∧
        context.totalInput = notes.sum := by
  have hvalues := map_positiveIndices notes
  have hsum := sum_positiveIndices notes
  rw [hvalues] at hsum
  unfold planningContext
  dsimp only
  split_ifs with hempty
  · refine .inl ⟨rfl, ?_⟩
    rw [← hvalues, List.isEmpty_iff.1 hempty]
    rfl
  · have hle : ∀ value ∈ notes.filter (0 < ·), value ≤ maxMoney := by
      intro value hvalue
      exact (List.single_le_sum (by simp) _ hvalue).trans (hsum.trans_le hmoney)
    have hfeeMax : feePerStage ≤ maxMoney := hfee.trans (by decide)
    let available : List Zatoshis :=
      (notes.filter (0 < ·)).pmap (fun value hvalue => ⟨value, hvalue⟩) hle
    have havailable : available.map Zatoshis.val = notes.filter (0 < ·) := by
      rw [List.map_pmap]
      simp
    refine .inr ⟨⟨positiveIndices notes, notes.sum, available, ⟨feePerStage, hfeeMax⟩⟩, ?_, ?_,
      havailable, rfl⟩
    · simp only [bind_eq_ok, ensure_eq_ok, checkedSum_eq_ok, mapM_orError_eq_ok, map_ofNat?_eq,
        orError_eq_ok, Zatoshis.ofNat?_eq_some, pure_eq_ok, Option.some.injEq]
      rw [hvalues]
      have hsize : maxMoney < u64Size := by decide
      exact ⟨(), by omega, (), trivial, notes.sum, ⟨hsum.symm, by omega⟩, available, havailable, _,
        rfl, rfl⟩
    · exact ⟨hmoney, by rw [havailable, hsum], by rw [havailable]; simp, rfl, hfee⟩

/-- The fees of a transaction for every crossing stay below the crossings. -/
theorem mul_length_le_sum (hfee : feePerStage ≤ zip318MaxResidualValueZatoshi)
    (hcanonical : ∀ d ∈ crossings, isZip318CanonicalDenomination d) :
    feePerStage * crossings.length ≤ crossings.sum := by
  rw [Nat.mul_comm]
  refine List.card_nsmul_le_sum _ _ fun d hd => hfee.trans ?_
  exact (bounds_of_isZip318CanonicalDenomination (hcanonical d hd)).1

/-- Crossings that are worth no more than all money are affordable or not, without an error. -/
theorem preparationForCrossings_ok (hcontext : context.Funded feePerStage)
    (hcanonical : ∀ d ∈ crossings, isZip318CanonicalDenomination d)
    (hworth : (crossings.map (· + migrationFee)).sum ≤ maxMoney) :
    ∃ typed : List Zatoshis, typed.map Zatoshis.val = crossings.map (· + migrationFee) ∧
      ((∃ plan, planPreparation S.notes context.available typed context.prepFee = .ok plan ∧
          preparationForCrossings S context crossings feePerStage migrationFee =
            .ok (some (crossings.map (· + migrationFee), plan))) ∨
        planPreparation S.notes context.available typed context.prepFee =
            .error .insufficientFunds ∧
          preparationForCrossings S context crossings feePerStage migrationFee = .ok none) := by
  have hle : ∀ value ∈ crossings.map (· + migrationFee), value ≤ maxMoney := by
    intro value hvalue
    exact (List.single_le_sum (by simp) _ hvalue).trans hworth
  obtain ⟨typed, htyped⟩ : ∃ typed : List Zatoshis,
      typed.map Zatoshis.val = crossings.map (· + migrationFee) := by
    refine ⟨(crossings.map (· + migrationFee)).pmap (fun value hvalue => ⟨value, hvalue⟩) hle, ?_⟩
    rw [List.map_pmap]
    simp
  refine ⟨typed, htyped, ?_⟩
  cases hplan : planPreparation S.notes context.available typed context.prepFee with
  | error error =>
    refine .inr ?_
    obtain rfl := planPreparation_error (hcontext.total.trans_le hcontext.money) (by rwa [htyped])
      hplan
    exact ⟨rfl, preparationForCrossings_eq_none.2 ⟨typed, htyped, .inl hplan⟩⟩
  | ok plan =>
    refine .inl ⟨plan, rfl, ?_⟩
    have hlength : typed.length = crossings.length := by
      simpa using congrArg List.length htyped
    have hfit : (crossings.map (· + migrationFee)).sum + feePerStage * crossings.length <
        u64Size := by
      have hfees := mul_length_le_sum hcontext.fee_le hcanonical
      have hcrossings := sum_le_sum_map_add crossings migrationFee
      unfold maxMoney at hworth
      unfold u64Size
      omega
    have hsound := planPreparation_sound (by rwa [htyped, hcontext.fee, hlength]) hplan
    rw [htyped, hcontext.fee] at hsound
    have hcommitted := hsound.committed_le hcontext.positive (positive_crossings hcanonical)
    have hcount : plan.transactions.length = plan.transactionCount := by
      simp [PreparationPlan.transactions, PreparationPlan.transactionCount]
    rw [hcount, hcontext.total] at hcommitted
    refine preparationForCrossings_eq_some.2 ⟨rfl, ⟨typed, htyped, hplan⟩, hcommitted, ?_⟩
    exact (hcommitted.trans hcontext.money).trans_lt (by decide)

/-! ## The search without refinement -/

/-- The refiner that keeps the selected denomination. -/
def keepDenomination (greedy : ℕ) (rng : Unit) : DenominationRefinement × Unit :=
  (.leaf greedy, rng)

/-- The search for the next crossing never fails.  It appends one canonical denomination, or comes
back empty when none can be appended. -/
theorem searchDenomination_ok (hcontext : context.Funded feePerStage)
    (hcanonical : ∀ d ∈ crossings, isZip318CanonicalDenomination d) {affordable : ℕ}
    (hworth : (crossings.map (· + migrationFee)).sum + affordable + migrationFee ≤ maxMoney) :
    ∃ next, searchDenomination keepDenomination S context crossings feePerStage migrationFee
        affordable () = .ok (next, ()) ∧
      (∀ state, next = some state → ∃ d, isZip318CanonicalDenomination d ∧ d ≤ affordable ∧
        state.crossingValues = crossings ++ [d]) ∧
      (next = none → ∀ d, isZip318CanonicalDenomination d → d ≤ affordable →
        preparationForCrossings S context (crossings ++ [d]) feePerStage migrationFee =
          .ok none) := by
  fun_induction searchDenomination keepDenomination S context crossings feePerStage migrationFee
    affordable () with
  | case1 affordable rng hlow =>
    refine ⟨none, rfl, by simp, fun _ d hd hle => ?_⟩
    have hmin := (bounds_of_isZip318CanonicalDenomination hd).1
    omega
  | case2 affordable rng hlow hnone =>
    exact absurd (largestZip318DenominationAtOrBelow_eq_none.1 hnone) hlow
  | case3 affordable rng hlow greedy hgreedy refinement rng' hrefine ih =>
    obtain ⟨rfl, rfl⟩ := Prod.mk.inj hrefine
    obtain ⟨hle, hmin, hgreedyCanonical⟩ := largestZip318DenominationAtOrBelow_spec hgreedy
    have hall : ∀ d ∈ crossings ++ [greedy], isZip318CanonicalDenomination d := by
      grind
    have hsum : ((crossings ++ [greedy]).map (· + migrationFee)).sum ≤ maxMoney := by
      rw [List.map_append, List.sum_append]
      simp only [List.map_cons, List.map_nil, List.sum_cons, List.sum_nil]
      omega
    have hcandidates : refinementCandidates (.leaf greedy) = .ok [[greedy]] := by
      simp [DenominationRefinement.leaf, refinementCandidates, ensure, hgreedyCanonical]
    have hvalue : (DenominationRefinement.leaf greedy).value = greedy := rfl
    obtain ⟨typed, -, ⟨plan, -, hsome⟩ | ⟨-, hnone⟩⟩ :=
      @preparationForCrossings_ok S context (crossings ++ [greedy]) feePerStage migrationFee
        hcontext hall hsum
    · refine ⟨some ⟨crossings ++ [greedy], (crossings ++ [greedy]).map (· + migrationFee), plan⟩,
        ?_, ?_, fun hnone => by cases hnone⟩
      · rw [ensure_of _ hvalue, ok_bind, hcandidates, ok_bind, firstAffordable, hsome]
        rfl
      · rintro state hstate
        obtain rfl := Option.some.inj hstate
        exact ⟨greedy, hgreedyCanonical, hle, rfl⟩
    · rw [ensure_of _ hvalue, ok_bind, hcandidates, ok_bind, firstAffordable, hnone, ok_bind,
        firstAffordable, ok_bind]
      dsimp only
      split_ifs with hleast
      · refine ⟨none, rfl, by simp, fun _ d hd hdle => ?_⟩
        have hdmin := (bounds_of_isZip318CanonicalDenomination hd).1
        obtain ⟨largest, hlargest, hdlargest⟩ := le_largestZip318DenominationAtOrBelow hd hdle
        obtain rfl := Option.some.inj (hgreedy.symm.trans hlargest)
        obtain rfl : d = greedy := by omega
        exact hnone
      · obtain ⟨next, hnext, hfound, hrest⟩ := ih (by omega)
        refine ⟨next, hnext, fun state hstate => ?_, fun hnil d hd hdle => ?_⟩
        · obtain ⟨d, hd, hdle, hcrossings⟩ := hfound state hstate
          exact ⟨d, hd, by omega, hcrossings⟩
        obtain ⟨largest, hlargest, hdlargest⟩ := le_largestZip318DenominationAtOrBelow hd hdle
        obtain rfl := Option.some.inj (hgreedy.symm.trans hlargest)
        rcases Nat.eq_or_lt_of_le hdlargest with rfl | hlt
        · exact hnone
        · exact hrest hnil d hd (by omega)

/-- The search never fails, and keeps the crossings it has. -/
theorem searchLoop_ok (hcontext : context.Funded feePerStage) {state : SearchState} {rng : Unit}
    (hvalid : state.Valid S context feePerStage migrationFee)
    (hcommitted : ∃ committed ≤ context.totalInput,
      committedValue state.fundingValues state.preparation feePerStage = .ok committed) :
    ∃ final, searchLoop keepDenomination S context feePerStage migrationFee state rng = .ok final ∧
      (state.crossingValues ≠ [] → final.crossingValues ≠ []) := by
  fun_induction searchLoop keepDenomination S context feePerStage migrationFee state rng with
  | case1 state rng error herror =>
    obtain ⟨committed, -, hok⟩ := hcommitted
    rw [herror] at hok
    cases hok
  | case2 state => exact ⟨state, rfl, id⟩
  | case3 state rng committed hok budget hbudget error herror =>
    obtain ⟨total, htotal, hok'⟩ := hcommitted
    obtain rfl := Except.ok.inj (hok.symm.trans hok')
    obtain ⟨hsum, -⟩ := committedValue_eq_ok.1 hok
    have hmoney := hcontext.money
    have hworth : (state.crossingValues.map (· + migrationFee)).sum +
        min (budget - migrationFee) zip318MaxMigrationDenominationZatoshi + migrationFee ≤
        maxMoney := by
      rw [← hvalid.funding]
      omega
    obtain ⟨next, hnext, -⟩ :=
      @searchDenomination_ok S context _ feePerStage migrationFee hcontext hvalid.canonical _ hworth
    rw [herror] at hnext
    cases hnext
  | case4 state => exact ⟨state, rfl, id⟩
  | case5 state rng committed hok budget hbudget next rng' hnext ih =>
    have hextends := searchDenomination_extends keepDenomination hnext
    obtain ⟨-, -, hle, hlt⟩ := preparationForCrossings_eq_some.1 hextends.affordable
    obtain ⟨final, hfinal, hkeeps⟩ := ih (hextends.valid hvalid)
      ⟨_, hle, committedValue_eq_ok.2 ⟨rfl, hlt⟩⟩
    obtain ⟨value, candidate, hvalue, hsplits, happend⟩ := hextends.appended
    refine ⟨final, hfinal, fun hne => hkeeps ?_⟩
    rw [happend]
    exact List.append_ne_nil_of_left_ne_nil hne candidate

theorem fundingNote_pos {d : ℕ} (hd : isZip318CanonicalDenomination d) : 0 < d + migrationFee := by
  have hleast := (bounds_of_isZip318CanonicalDenomination hd).1
  unfold zip318MaxResidualValueZatoshi at hleast
  omega

/-- When a single crossing is affordable. -/
theorem preparationForCrossings_single (hcontext : context.Funded feePerStage) {d : ℕ}
    (hd : isZip318CanonicalDenomination d) (hworth : d + migrationFee ≤ maxMoney) :
    (∃ result, preparationForCrossings S context [d] feePerStage migrationFee =
        .ok (some result)) ↔
      d + migrationFee ∈ context.available.map Zatoshis.val ∨
      ReachedByLayers feePerStage (d + migrationFee + feePerStage)
        (context.available.map Zatoshis.val) ∨
      ReachedByMerging feePerStage (d + migrationFee + feePerStage)
        (context.available.map Zatoshis.val) := by
  obtain ⟨typed, htyped, hresult⟩ := @preparationForCrossings_ok S context [d] feePerStage
    migrationFee hcontext (by simpa using hd) (by simpa using hworth)
  obtain ⟨funding, rfl, hfunding⟩ : ∃ funding, typed = [funding] ∧
      funding.val = d + migrationFee := by
    simpa [List.map_eq_singleton_iff] using htyped
  have hpos : 0 < funding.val := hfunding ▸ fundingNote_pos hd
  have hsingle := @planPreparation_reached S.notes context.available funding context.prepFee
    (hcontext.total.trans_le hcontext.money) hcontext.positive hpos
  rw [hfunding, hcontext.fee] at hsingle
  rw [← hsingle]
  obtain ⟨plan, hplan, hsome⟩ | ⟨herror, hnone⟩ := hresult
  · exact iff_of_true ⟨_, hsome⟩ ⟨plan, hplan⟩
  · refine iff_of_false ?_ ?_
    · rintro ⟨result, hsome⟩
      rw [hnone] at hsome
      cases hsome
    · rintro ⟨plan, hplan⟩
      rw [herror] at hplan
      cases hplan

def SearchState.start : SearchState := ⟨[], [], ⟨[], []⟩⟩

/-- The search appends nothing only when no single crossing is affordable. -/
theorem searchLoop_start (hcontext : context.Funded feePerStage) :
    ∃ final, searchLoop keepDenomination S context feePerStage migrationFee .start () =
        .ok final ∧
      (final.crossingValues ≠ [] ↔ ∃ d, isZip318CanonicalDenomination d ∧
        d + migrationFee ≤ context.totalInput ∧
        ∃ result, preparationForCrossings S context [d] feePerStage migrationFee =
          .ok (some result)) := by
  have hvalid : SearchState.start.Valid S context feePerStage migrationFee :=
    ⟨by simp [SearchState.start], rfl, by simp [SearchState.start]⟩
  have hcommitted : committedValue SearchState.start.fundingValues SearchState.start.preparation
      feePerStage = .ok 0 := committedValue_eq_ok.2 ⟨rfl, by decide⟩
  have hmoney := hcontext.money
  rw [searchLoop, hcommitted]
  dsimp only
  rw [Nat.sub_zero]
  split_ifs with hlow
  · refine ⟨.start, rfl, iff_of_false (fun hne => hne rfl) ?_⟩
    rintro ⟨d, hd, hle, -⟩
    have hmin := (bounds_of_isZip318CanonicalDenomination hd).1
    omega
  · obtain ⟨next, hnext, hfound, hnone⟩ := @searchDenomination_ok S context [] feePerStage
      migrationFee hcontext (by simp)
      (min (context.totalInput - migrationFee) zip318MaxMigrationDenominationZatoshi)
      (by simp only [List.map_nil, List.sum_nil]; omega)
    split
    · rename_i error herror
      rw [SearchState.start, hnext] at herror
      cases herror
    · rename_i hnil
      rw [SearchState.start, hnext] at hnil
      obtain ⟨rfl, -⟩ := Prod.mk.inj (Except.ok.inj hnil)
      refine ⟨.start, rfl, iff_of_false (fun hne => hne rfl) ?_⟩
      rintro ⟨d, hd, hle, result, hresult⟩
      have hmax := (bounds_of_isZip318CanonicalDenomination hd).2
      have hunaffordable := hnone rfl d hd (by omega)
      rw [List.nil_append, hresult] at hunaffordable
      cases hunaffordable
    · rename_i state rng hstate
      have hextends := searchDenomination_extends keepDenomination hstate
      obtain ⟨-, -, hle, hlt⟩ := preparationForCrossings_eq_some.1 hextends.affordable
      obtain ⟨final, hfinal, hkeeps⟩ := @searchLoop_ok S context feePerStage migrationFee hcontext
        state rng (hextends.valid hvalid) ⟨_, hle, committedValue_eq_ok.2 ⟨rfl, hlt⟩⟩
      rw [SearchState.start, hnext] at hstate
      obtain ⟨hsome, -⟩ := Prod.mk.inj (Except.ok.inj hstate)
      obtain ⟨d, hd, hdle, hcrossings⟩ := hfound state hsome
      have haffordable := hextends.affordable
      rw [hcrossings, List.nil_append] at haffordable
      refine ⟨final, hfinal, iff_of_true (hkeeps ?_) ⟨d, hd, by omega, _, haffordable⟩⟩
      rw [hcrossings]
      exact List.cons_ne_nil d []

/-! ## When there is a plan -/

/-- A note is a funding note already, or consolidation leads to a note that is worth the least
funding note and the fee of the transaction that mints it. -/
def FirstFundingReached (feePerStage migrationFee : ℕ) (notes : List ℕ) : Prop :=
  (∃ d, isZip318CanonicalDenomination d ∧ d + migrationFee ∈ notes) ∨
    ReachedByLayers feePerStage (zip318MaxResidualValueZatoshi + migrationFee + feePerStage)
      (notes.filter (0 < ·)) ∨
    ReachedByMerging feePerStage (zip318MaxResidualValueZatoshi + migrationFee + feePerStage)
      (notes.filter (0 < ·))

/-- Some single crossing is affordable exactly when a first funding note is reached. -/
theorem exists_affordable_iff (hcontext : context.Funded feePerStage)
    (havailable : context.available.map Zatoshis.val = notes.filter (0 < ·)) :
    (∃ d, isZip318CanonicalDenomination d ∧ d + migrationFee ≤ context.totalInput ∧
      ∃ result, preparationForCrossings S context [d] feePerStage migrationFee =
        .ok (some result)) ↔ FirstFundingReached feePerStage migrationFee notes := by
  have hmoney := hcontext.money
  have htotal := hcontext.total
  have hleast : isZip318CanonicalDenomination zip318MaxResidualValueZatoshi := by decide +kernel
  rw [havailable] at htotal
  constructor
  · rintro ⟨d, hd, hle, hresult⟩
    have hmin := (bounds_of_isZip318CanonicalDenomination hd).1
    rw [preparationForCrossings_single hcontext hd (by omega), havailable] at hresult
    obtain hdirect | hlayers | hmerging := hresult
    · exact .inl ⟨d, hd, (List.mem_filter.1 hdirect).1⟩
    · exact .inr (.inl (hlayers.mono (by omega)))
    · exact .inr (.inr (hmerging.mono (by omega)))
  · intro hreached
    have hsingle := fun (d : ℕ) (hd : isZip318CanonicalDenomination d)
        (hle : d + migrationFee ≤ context.totalInput) =>
      (@preparationForCrossings_single S context feePerStage migrationFee hcontext d hd
        (hle.trans hmoney)).2
    rw [havailable] at hsingle
    obtain ⟨d, hd, hdirect⟩ | hlayers | hmerging := hreached
    · have hmem : d + migrationFee ∈ notes.filter (0 < ·) :=
        List.mem_filter.2 ⟨hdirect, decide_eq_true (fundingNote_pos hd)⟩
      have hle := (List.single_le_sum (by simp) _ hmem).trans_eq htotal
      exact ⟨d, hd, hle, hsingle d hd hle (.inl hmem)⟩
    · have hle := hlayers.le_sum
      exact ⟨_, hleast, by omega, hsingle _ hleast (by omega) (.inr (.inl hlayers))⟩
    · have hle := hmerging.le_sum
      exact ⟨_, hleast, by omega, hsingle _ hleast (by omega) (.inr (.inr hmerging))⟩

/-- The planner never fails, and finds a plan exactly when a first funding note is reached. -/
theorem planPaddedDenominationsWithoutRefinement_isSome (S : PlannerSorts)
    (hmoney : notes.sum ≤ maxMoney) (hpositive : 0 < feePerStage)
    (hfee : feePerStage ≤ zip318MaxResidualValueZatoshi) (hmigration : migrationFee ≤ maxMoney) :
    ∃ planned, planPaddedDenominationsWithoutRefinement S notes feePerStage migrationFee 1 =
        .ok planned ∧
      (planned.isSome ↔ FirstFundingReached feePerStage migrationFee notes) := by
  have hsize : zip318MaxResidualValueZatoshi + migrationFee < u64Size := by
    unfold maxMoney at hmigration
    unfold zip318MaxResidualValueZatoshi u64Size
    omega
  have hmin : checkedAdd zip318MaxResidualValueZatoshi migrationFee =
      some (zip318MaxResidualValueZatoshi + migrationFee) := if_pos hsize
  obtain ⟨hcontext, hempty⟩ | ⟨context, hcontext, hfunded, havailable, htotal⟩ :=
    planningContext_ok hmoney hpositive hfee
  · refine ⟨none, ?_, iff_of_false (by simp) ?_⟩
    · rw [planPaddedDenominationsWithoutRefinement, planPaddedDenominationsWithRefiner, hcontext]
      rfl
    · rintro (⟨d, hd, hdirect⟩ | hlayers | hmerging)
      · have hmem : d + migrationFee ∈ notes.filter (0 < ·) :=
          List.mem_filter.2 ⟨hdirect, decide_eq_true (fundingNote_pos hd)⟩
        rw [hempty] at hmem
        cases hmem
      · rw [hempty] at hlayers
        exact not_reachedByLayers_nil hlayers
      · rw [hempty] at hmerging
        exact absurd hmerging.le_sum (by simp only [List.sum_nil]; omega)
  · obtain ⟨final, hfinal, hcrossings⟩ :=
      @searchLoop_start S context feePerStage migrationFee hfunded
    rw [exists_affordable_iff hfunded havailable] at hcrossings
    rw [← hcrossings, planPaddedDenominationsWithoutRefinement, planPaddedDenominationsWithRefiner,
      hcontext, ok_bind]
    dsimp only
    have hsearch : searchLoop (fun greedy rng => (DenominationRefinement.leaf greedy, rng)) S
        context feePerStage migrationFee ⟨[], [], ⟨[], []⟩⟩ () = .ok final := hfinal
    rw [hmin, orError_some, ok_bind, hsearch, ok_bind]
    obtain ⟨hvalid, -⟩ := searchLoop_settled hsize ⟨by simp, rfl, by simp⟩ hsearch
    by_cases hne : final.crossingValues = []
    · refine ⟨none, ?_, iff_of_false (by simp) (not_not.2 hne)⟩
      rw [finishPlan, hne]
      rfl
    · obtain ⟨plan, hplan, -⟩ := finishPlan_accounting hcontext hvalid.canonical hne
        (hvalid.affordable hne)
      exact ⟨some plan, hplan, iff_of_true rfl hne⟩

/-- Below the balance that the status asks for, only an exact funding note gives a plan. -/
theorem firstFundingReached_of_lt (hlt : notes.sum < 1_095_000) :
    FirstFundingReached 80_000 15_000 notes ↔ 1_015_000 ∈ notes := by
  have hsum := congrArg List.sum (map_positiveIndices notes)
  rw [sum_positiveIndices] at hsum
  constructor
  · rintro (⟨d, hd, hdirect⟩ | hlayers | hmerging)
    · have hle := List.single_le_sum (by simp) _ hdirect
      obtain rfl := eq_of_isZip318CanonicalDenomination_of_lt hd (by omega)
      exact hdirect
    · have hle := hlayers.le_sum
      unfold zip318MaxResidualValueZatoshi at hle
      omega
    · have hle := hmerging.le_sum
      unfold zip318MaxResidualValueZatoshi at hle
      omega
  · exact fun hdirect => .inl ⟨1_000_000, by decide +kernel, hdirect⟩

/-- The status is read off the balance, and it agrees with the planner exactly when no note of a
smaller balance is the least funding note, and a larger balance reaches a first funding note. -/
theorem status_agrees_iff (S : PlannerSorts) (notes : List ℕ) (hmoney : notes.sum ≤ maxMoney) :
    orchardBalanceCanCreateMigrationOutput notes.sum = .ok (decide (1_095_000 ≤ notes.sum)) ∧
      (∀ completedRun ironwoodSpendable ironwoodPending,
        phaseWithoutRun completedRun notes.sum 0 ironwoodSpendable ironwoodPending =
          .ok .readyToPrepare ↔ 1_095_000 ≤ notes.sum) ∧
      (∃ planned, planPaddedDenominationsWithoutRefinement S notes 80_000 15_000 1 =
        .ok planned) ∧
      ((orchardBalanceCanCreateMigrationOutput notes.sum = .ok true ↔
          ∃ plan, planPaddedDenominationsWithoutRefinement S notes 80_000 15_000 1 =
            .ok (some plan)) ↔
        if notes.sum < 1_095_000 then 1_015_000 ∉ notes
        else FirstFundingReached 80_000 15_000 notes) := by
  have hsize : notes.sum < u64Size := hmoney.trans_lt (by decide)
  have hstatus := orchardBalanceCanCreateMigrationOutput_eq hsize
  obtain ⟨planned, hplanned, hsome⟩ := @planPaddedDenominationsWithoutRefinement_isSome notes
    80_000 15_000 S hmoney (by decide) (by decide) (by decide)
  refine ⟨hstatus, ?_, ⟨planned, hplanned⟩, ?_⟩
  · intro completedRun ironwoodSpendable ironwoodPending
    rw [phaseWithoutRun_eq hsize]
    grind
  · have hplan : (∃ plan, planPaddedDenominationsWithoutRefinement S notes 80_000 15_000 1 =
        .ok (some plan)) ↔ FirstFundingReached 80_000 15_000 notes := by
      rw [← hsome, hplanned, Option.isSome_iff_exists]
      simp
    rw [hplan, hstatus, Except.ok.injEq, decide_eq_true_iff]
    split_ifs with hlt
    · rw [firstFundingReached_of_lt hlt]
      exact ⟨fun h hmem => absurd (h.2 hmem) (by omega), fun h => iff_of_false (by omega) h⟩
    · exact ⟨fun h => h.1 (by omega), fun h => iff_of_true (by omega) h⟩

/-- One note that is worth the first denomination and both fees. -/
theorem status_agrees_single :
    orchardBalanceCanCreateMigrationOutput [1_200_000].sum = .ok true ∧
      ∃ plan, planPaddedDenominationsWithoutRefinement ⟨.ofInsertion _, .ofInsertion _⟩
        [1_200_000] 80_000 15_000 1 = .ok (some plan) :=
  have hagree := status_agrees_iff ⟨.ofInsertion _, .ofInsertion _⟩ [1_200_000] (by decide)
  have hstatus : orchardBalanceCanCreateMigrationOutput [1_200_000].sum = .ok true := hagree.1
  ⟨hstatus, (hagree.2.2.2.2 (.inr (.inl (.value List.mem_cons_self (by decide))))).1 hstatus⟩

/-- The plan that uses a funding note as it is. -/
def directPlan : PaddedDenominationPlan where
  denominations := ⟨[1_000_000], none, 0, 15_000, 1_015_000, 1_000_000⟩
  stages := []
  layerCount := 0
  directMigrationInputs := [⟨0, 0, 1_015_000⟩]

/-- An exact funding note has a plan without a preparation fee, which the status asks for, and two
notes that have to be merged first cannot pay the second preparation. -/
theorem status_disagrees :
    ¬ (orchardBalanceCanCreateMigrationOutput [1_015_000].sum = .ok true ↔
        ∃ plan, planPaddedDenominationsWithoutRefinement ⟨.ofInsertion _, .ofInsertion _⟩
          [1_015_000] 80_000 15_000 1 = .ok (some plan)) ∧
      ¬ (orchardBalanceCanCreateMigrationOutput [600_000, 500_000].sum = .ok true ↔
        ∃ plan, planPaddedDenominationsWithoutRefinement ⟨.ofInsertion _, .ofInsertion _⟩
          [600_000, 500_000] 80_000 15_000 1 = .ok (some plan)) := by
  constructor
  · have hstatus : orchardBalanceCanCreateMigrationOutput [1_015_000].sum = .ok false :=
      orchardBalanceCanCreateMigrationOutput_eq (by decide)
    have hplan : planPaddedDenominationsWithoutRefinement ⟨.ofInsertion _, .ofInsertion _⟩
        [1_015_000] 80_000 15_000 1 = .ok (some directPlan) := by decide +kernel
    intro hagree
    rw [hagree.2 ⟨directPlan, hplan⟩] at hstatus
    cases hstatus
  · have hstatus : orchardBalanceCanCreateMigrationOutput [600_000, 500_000].sum = .ok true :=
      orchardBalanceCanCreateMigrationOutput_eq (by decide)
    have hnone : planPaddedDenominationsWithoutRefinement ⟨.ofInsertion _, .ofInsertion _⟩
        [600_000, 500_000] 80_000 15_000 1 = .ok none := by decide +kernel
    intro hagree
    obtain ⟨plan, hplan⟩ := hagree.1 hstatus
    rw [hnone] at hplan
    cases hplan

end VizorWallet.Migration
