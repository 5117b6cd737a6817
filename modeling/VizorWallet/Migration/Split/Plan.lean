import VizorWallet.Migration.Preparation.Planner
import VizorWallet.Migration.Split.Refinement

/-!
# Padded denomination plans

`wallet/sync/migration/split_plan.rs`: the denominations a wallet migrates, chosen together with
the preparation graph that mints their funding notes.  The preparation planner is consulted after
every candidate, so the search stops only when no further denomination can be funded.

## Main definitions

* `planPaddedDenominationsWithRefiner` — the search, for any refiner; the random one and the one
  without refinement are instances.
* `planPaddedDenominationsForTargets` — the plan of an approved list of denominations.
* `finishPlan`, `translatePreparationPlan` — the stages of a preparation plan and the assignment
  of parts to notes.
-/

namespace VizorWallet.Migration

/-- The two unstable sorts of the planner: of notes by value and of parts by denomination. -/
structure PlannerSorts where
  notes : UnstableSort PrepInput.value
  parts : UnstableSort (Prod.fst : ℕ × ℕ → ℕ)

def approvedPlanStaleError : String :=
  "Approved migration plan no longer matches the spendable Orchard balance. Review the migration plan again."

def approvedPlanOrderError : String :=
  "Approved migration denominations are not in canonical part order. Review the migration plan again."

inductive SplitStageInput
  | original (inputIndex value : ℕ)
  | prior (stageIndex outputIndex value : ℕ)
  deriving DecidableEq, Repr

def SplitStageInput.value : SplitStageInput → ℕ
  | original _ v => v
  | prior _ _ v => v

inductive SplitTerminalKind
  | migration
  | orchardChange
  | continuation
  deriving DecidableEq, Repr

structure SplitStageOutput where
  value : ℕ
  kind : SplitTerminalKind
  partIndex : Option ℕ
  deriving DecidableEq, Repr

structure SplitStagePlan where
  layerIndex : ℕ
  inputs : List SplitStageInput
  outputs : List SplitStageOutput
  fee : ℕ
  requestedActions : ℕ
  deriving DecidableEq, Repr

structure DirectMigrationInput where
  inputIndex : ℕ
  partIndex : ℕ
  value : ℕ
  deriving DecidableEq, Repr

structure DenominationPlan where
  migrationOutputs : List ℕ
  orchardChange : Option ℕ
  splitFee : ℕ
  migrationFee : ℕ
  totalInput : ℕ
  totalMigratable : ℕ
  deriving DecidableEq, Repr

structure PaddedDenominationPlan where
  denominations : DenominationPlan
  stages : List SplitStagePlan
  layerCount : ℕ
  directMigrationInputs : List DirectMigrationInput
  deriving DecidableEq, Repr

structure PlanningContext where
  positiveInputIndices : List ℕ
  totalInput : ℕ
  available : List Zatoshis
  prepFee : Zatoshis

/-- The indices of the positive inputs. -/
def positiveIndices (inputValues : List ℕ) : List ℕ :=
  inputValues.zipIdx.filterMap fun (value, index) => if 0 < value then some index else none

def planningContext (inputValues : List ℕ) (feePerStage minimumOutput : ℕ) :
    Except String (Option PlanningContext) := do
  let positiveInputIndices := positiveIndices inputValues
  if positiveInputIndices.isEmpty then return none
  ensure (feePerStage ≠ 0) "Padded denomination stage fee must be positive"
  ensure (minimumOutput = 1)
    "Padded denomination stages require a 1-zatoshi minimum output to preserve the exact ZIP 317 fee"
  let positiveInputValues := positiveInputIndices.map fun index => inputValues[index]?.getD 0
  let totalInput ← checkedSum positiveInputValues "Selected Orchard value overflow"
  let available ← positiveInputValues.mapM fun value =>
    orError (Zatoshis.ofNat? value) "Selected Orchard note exceeds the maximum money supply"
  let prepFee ← orError (Zatoshis.ofNat? feePerStage) "Padded denomination fee is invalid"
  return some { positiveInputIndices, totalInput, available, prepFee }

/-! ## Committed value -/

def committedValue (fundingValues : List ℕ) (preparation : PreparationPlan)
    (feePerStage : ℕ) : Except String ℕ := do
  let fundingTotal ← checkedSum fundingValues "Migration funding total overflow"
  let prepFees ← orError (checkedMul feePerStage preparation.transactionCount)
    "Preparation fee total overflow"
  orError (checkedAdd fundingTotal prepFees) "Migration committed value overflow"

/-- The funding values and the preparation of a list of crossings, when they are affordable. -/
def preparationForCrossings (S : PlannerSorts) (context : PlanningContext)
    (crossingValues : List ℕ) (feePerStage migrationFee : ℕ) :
    Except String (Option (List ℕ × PreparationPlan)) := do
  let fundingValues ← crossingValues.mapM fun crossing =>
    orError (checkedAdd crossing migrationFee) "Prepared migration note value overflow"
  let typedFunding ← fundingValues.mapM fun value =>
    orError (Zatoshis.ofNat? value) "Prepared migration note value is invalid"
  match planPreparation S.notes context.available typedFunding context.prepFee with
  | .error .insufficientFunds => return none
  | .error .balanceInvalid => .error "Migration preparation balance is invalid"
  | .ok preparation =>
    let committed ← committedValue fundingValues preparation feePerStage
    return if committed ≤ context.totalInput then some (fundingValues, preparation) else none

/-- Try every denomination at or below `affordable`, the largest first. -/
def canAppendFrom (S : PlannerSorts) (context : PlanningContext) (crossingValues : List ℕ)
    (feePerStage migrationFee affordable : ℕ) : Except String Bool :=
  if affordable < zip318MaxResidualValueZatoshi then .ok false
  else
    match hcrossing : largestZip318DenominationAtOrBelow affordable with
    | none => .ok false
    | some crossing => do
      let trial ← preparationForCrossings S context (crossingValues ++ [crossing]) feePerStage
        migrationFee
      if trial.isSome then return true
      if crossing = zip318MaxResidualValueZatoshi then return false
      canAppendFrom S context crossingValues feePerStage migrationFee (crossing - 1)
termination_by affordable
decreasing_by
  have := largestZip318DenominationAtOrBelow_spec hcrossing
  have : 0 < zip318MaxResidualValueZatoshi := by decide
  omega

def canAppendCanonicalDenomination (S : PlannerSorts) (context : PlanningContext)
    (crossingValues fundingValues : List ℕ) (preparation : PreparationPlan)
    (feePerStage migrationFee : ℕ) : Except String Bool := do
  let committed ← committedValue fundingValues preparation feePerStage
  let budget := context.totalInput - committed
  let minimumFundingNote ← orError (checkedAdd zip318MaxResidualValueZatoshi migrationFee)
    "Minimum migration funding note overflow"
  if budget < minimumFundingNote then return false
  canAppendFrom S context crossingValues feePerStage migrationFee
    (min (budget - migrationFee) zip318MaxMigrationDenominationZatoshi)

/-! ## What an affordable list of crossings is -/

theorem committedValue_eq_ok {fundingValues : List ℕ} {preparation : PreparationPlan}
    {feePerStage committed : ℕ} :
    committedValue fundingValues preparation feePerStage = .ok committed ↔
      committed = fundingValues.sum + feePerStage * preparation.transactionCount ∧
        committed < u64Size := by
  simp only [committedValue, bind_eq_ok, checkedSum_eq_ok, orError_eq_ok, checkedMul_eq_some,
    checkedAdd_eq_some]
  constructor
  · rintro ⟨total, ⟨rfl, -⟩, fees, ⟨-, rfl⟩, hlt, rfl⟩
    exact ⟨rfl, hlt⟩
  · rintro ⟨rfl, hlt⟩
    exact ⟨_, ⟨rfl, by omega⟩, _, ⟨by omega, rfl⟩, hlt, rfl⟩

theorem map_checkedAdd_eq {values result : List ℕ} {fee : ℕ} :
    values.map (checkedAdd · fee) = result.map some ↔
      result = values.map (· + fee) ∧ ∀ v ∈ result, v < u64Size := by
  induction values generalizing result with
  | nil => cases result <;> simp
  | cons v rest ih =>
    cases result with
    | nil => simp
    | cons r result =>
      simp only [List.map_cons, List.cons.injEq, ih, checkedAdd_eq_some, List.mem_cons,
        forall_eq_or_imp]
      grind

theorem map_ofNat?_eq {values : List ℕ} {typed : List Zatoshis} :
    values.map Zatoshis.ofNat? = typed.map some ↔ typed.map Zatoshis.val = values := by
  induction values generalizing typed with
  | nil => cases typed <;> simp
  | cons v rest ih => cases typed <;> simp [ih]

/-- The funding note of a crossing is worth its migration fee more, and the funding notes and the
preparation fees are within the selected value. -/
theorem preparationForCrossings_eq_some {S : PlannerSorts} {context : PlanningContext}
    {crossingValues fundingValues : List ℕ} {feePerStage migrationFee : ℕ}
    {preparation : PreparationPlan} :
    preparationForCrossings S context crossingValues feePerStage migrationFee =
        .ok (some (fundingValues, preparation)) ↔
      fundingValues = crossingValues.map (· + migrationFee) ∧
        (∃ typedFunding : List Zatoshis, typedFunding.map Zatoshis.val = fundingValues ∧
          planPreparation S.notes context.available typedFunding context.prepFee =
            .ok preparation) ∧
        fundingValues.sum + feePerStage * preparation.transactionCount ≤ context.totalInput ∧
        fundingValues.sum + feePerStage * preparation.transactionCount < u64Size := by
  simp only [preparationForCrossings, bind_eq_ok, mapM_orError_eq_ok, map_checkedAdd_eq,
    map_ofNat?_eq]
  constructor
  · rintro ⟨funding, ⟨rfl, -⟩, typed, htyped, h⟩
    split at h
    · cases h
    · cases h
    · rename_i plan hplan
      simp only [bind_eq_ok, committedValue_eq_ok, pure_eq_ok] at h
      obtain ⟨committed, ⟨rfl, hlt⟩, h⟩ := h
      split_ifs at h with hle
      cases h
      exact ⟨rfl, ⟨typed, htyped, hplan⟩, hle, hlt⟩
  · rintro ⟨rfl, ⟨typed, htyped, hplan⟩, hle, hlt⟩
    refine ⟨_, ⟨rfl, fun v hv => ?_⟩, typed, htyped, ?_⟩
    · rw [← htyped] at hv
      obtain ⟨z, -, rfl⟩ := List.mem_map.1 hv
      exact z.le_maxMoney.trans_lt (by decide)
    · rw [hplan]
      simp only [bind_eq_ok, committedValue_eq_ok, pure_eq_ok]
      exact ⟨_, ⟨rfl, hlt⟩, if_pos hle⟩

/-- The crossings chosen so far, with their funding values and preparation. -/
structure SearchState where
  crossingValues : List ℕ
  fundingValues : List ℕ
  preparation : PreparationPlan

/-- The first candidate that can be appended. -/
def firstAffordable (S : PlannerSorts) (context : PlanningContext) (crossingValues : List ℕ)
    (feePerStage migrationFee : ℕ) : List (List ℕ) → Except String (Option SearchState)
  | [] => .ok none
  | candidate :: rest => do
    match ← preparationForCrossings S context (crossingValues ++ candidate) feePerStage
      migrationFee with
    | some (fundingValues, preparation) =>
      return some ⟨crossingValues ++ candidate, fundingValues, preparation⟩
    | none => firstAffordable S context crossingValues feePerStage migrationFee rest

section Search

variable {σ : Type} (refine : ℕ → σ → DenominationRefinement × σ)

/-- Refine and try every denomination at or below `affordable`, the largest first. -/
def searchDenomination (S : PlannerSorts) (context : PlanningContext) (crossingValues : List ℕ)
    (feePerStage migrationFee affordable : ℕ) (rng : σ) : Except String (Option SearchState × σ) :=
  if affordable < zip318MaxResidualValueZatoshi then .ok (none, rng)
  else
    match _hgreedy : largestZip318DenominationAtOrBelow affordable with
    | none => .ok (none, rng)
    | some greedy => do
      let (refinement, rng) := refine greedy rng
      ensure (refinement.value = greedy) "Denomination refinement must preserve the selected value"
      let candidates ← refinementCandidates refinement
      match ← firstAffordable S context crossingValues feePerStage migrationFee candidates with
      | some accepted => return (some accepted, rng)
      | none =>
        if greedy = zip318MaxResidualValueZatoshi then return (none, rng)
        searchDenomination S context crossingValues feePerStage migrationFee (greedy - 1) rng
termination_by affordable
decreasing_by
  have := largestZip318DenominationAtOrBelow_spec _hgreedy
  have : 0 < zip318MaxResidualValueZatoshi := by decide
  omega

/-- The state a search step leads to: more crossings, still affordable. -/
structure Extends (S : PlannerSorts) (context : PlanningContext) (feePerStage migrationFee : ℕ)
    (crossingValues : List ℕ) (next : SearchState) : Prop where
  affordable : preparationForCrossings S context next.crossingValues feePerStage migrationFee =
    .ok (some (next.fundingValues, next.preparation))
  appended : ∃ value candidate, zip318MaxResidualValueZatoshi ≤ value ∧
    SplitsInto value candidate ∧ next.crossingValues = crossingValues ++ candidate

theorem firstAffordable_eq_some {S : PlannerSorts} {context : PlanningContext}
    {crossingValues : List ℕ} {feePerStage migrationFee : ℕ} {candidates : List (List ℕ)}
    {next : SearchState}
    (h : firstAffordable S context crossingValues feePerStage migrationFee candidates =
      .ok (some next)) :
    preparationForCrossings S context next.crossingValues feePerStage migrationFee =
        .ok (some (next.fundingValues, next.preparation)) ∧
      ∃ candidate ∈ candidates, next.crossingValues = crossingValues ++ candidate := by
  induction candidates with
  | nil => cases h
  | cons candidate rest ih =>
    simp only [firstAffordable, bind_eq_ok] at h
    obtain ⟨trial, htrial, h⟩ := h
    split at h
    · obtain rfl := Option.some.inj (pure_eq_ok.1 h)
      exact ⟨htrial, candidate, List.mem_cons_self, rfl⟩
    · obtain ⟨hok, c, hc, heq⟩ := ih h
      exact ⟨hok, c, List.mem_cons_of_mem _ hc, heq⟩

theorem searchDenomination_extends {S : PlannerSorts} {context : PlanningContext}
    {crossingValues : List ℕ} {feePerStage migrationFee affordable : ℕ} {rng rng' : σ}
    {next : SearchState}
    (h : searchDenomination refine S context crossingValues feePerStage migrationFee affordable
      rng = .ok (some next, rng')) :
    Extends S context feePerStage migrationFee crossingValues next := by
  fun_induction searchDenomination refine S context crossingValues feePerStage migrationFee
    affordable rng with
  | case1 => simp at h
  | case2 => simp at h
  | case3 affordable rng haff greedy hgreedy refinement rng₁ hrefine ih =>
    simp only [bind_eq_ok, ensure_eq_ok] at h
    obtain ⟨-, hvalue, candidates, hcandidates, accepted, haccepted, h⟩ := h
    split at h
    · obtain ⟨heq, -⟩ := Prod.mk.inj (pure_eq_ok.1 h)
      obtain rfl := Option.some.inj heq
      obtain ⟨hok, candidate, hmem, happend⟩ := firstAffordable_eq_some haccepted
      have hsplits := (refinementCandidates_spec refinement candidates hcandidates).2 candidate hmem
      rw [hvalue] at hsplits
      exact ⟨hok, greedy, candidate,
        (largestZip318DenominationAtOrBelow_spec hgreedy).2.1, hsplits, happend⟩
    · split_ifs at h
      · simp at h
      · exact ih h

theorem sum_le_sum_map_add (values : List ℕ) (fee : ℕ) :
    values.sum ≤ (values.map (· + fee)).sum := by
  rw [List.sum_map_add]
  simp

/-- A search step leaves less to plan. -/
theorem Extends.lt {S : PlannerSorts} {context : PlanningContext} {feePerStage migrationFee : ℕ}
    {crossingValues : List ℕ} {next : SearchState}
    (h : Extends S context feePerStage migrationFee crossingValues next) :
    context.totalInput - next.crossingValues.sum < context.totalInput - crossingValues.sum := by
  obtain ⟨hfunding, -, hle, -⟩ := preparationForCrossings_eq_some.1 h.affordable
  obtain ⟨value, candidate, hvalue, hsplits, happend⟩ := h.appended
  have hsum := sum_le_sum_map_add next.crossingValues migrationFee
  rw [← hfunding] at hsum
  have hmin : 0 < zip318MaxResidualValueZatoshi := by decide
  have hcrossing : next.crossingValues.sum = crossingValues.sum + value := by
    rw [happend, List.sum_append, hsplits.sum_eq]
  omega

/-- Extend the plan for as long as a further denomination can be funded. -/
def searchLoop (S : PlannerSorts) (context : PlanningContext) (feePerStage migrationFee : ℕ)
    (state : SearchState) (rng : σ) : Except String SearchState :=
  match committedValue state.fundingValues state.preparation feePerStage with
  | .error error => .error error
  | .ok committed =>
    let budget := context.totalInput - committed
    if budget < zip318MaxResidualValueZatoshi + migrationFee then .ok state
    else
      match _hnext : searchDenomination refine S context state.crossingValues feePerStage
        migrationFee (min (budget - migrationFee) zip318MaxMigrationDenominationZatoshi) rng with
      | .error error => .error error
      | .ok (none, _) => .ok state
      | .ok (some next, rng) => searchLoop S context feePerStage migrationFee next rng
termination_by context.totalInput - state.crossingValues.sum
decreasing_by exact (searchDenomination_extends refine _hnext).lt

end Search

/-! ## Stages -/

/-- Take the first part left whose funding note is worth `value`.  The stacks of the source,
filled in reverse, give the parts of one value in increasing order. -/
def takePartIndex (availableParts : List (ℕ × ℕ)) (value : ℕ) :
    Except String (ℕ × List (ℕ × ℕ)) :=
  match availableParts.find? fun part => part.1 == value with
  | some part => .ok (part.2, availableParts.erase part)
  | none => .error s!"Preparation plan produced unexpected funding value {value}"

/-- The parts not assigned yet, with the direct inputs assigned so far. -/
def translateDirect (positiveInputIndices : List ℕ) :
    List (ℕ × ℕ) → List (ℕ × ℕ) → Except String (List DirectMigrationInput × List (ℕ × ℕ))
  | [], parts => .ok ([], parts)
  | (index, value) :: rest, parts => do
    let inputIndex ← orError positiveInputIndices[index]?
      "Direct funding input index is out of range"
    let (partIndex, parts) ← takePartIndex parts value
    let (inputs, parts) ← translateDirect positiveInputIndices rest parts
    return (⟨inputIndex, partIndex, value⟩ :: inputs, parts)

/-- The stage of each transaction translated so far. -/
abbrev Coordinates := List ((ℕ × ℕ) × ℕ)

def translateInput (positiveInputIndices : List ℕ) (coordinates : Coordinates) :
    PrepInput → Except String SplitStageInput
  | .wallet index value => do
    let inputIndex ← orError positiveInputIndices[index]?
      "Preparation wallet input index is out of range"
    return .original inputIndex value
  | .prior layer transaction output value => do
    let stageIndex ← orError (coordinates.lookup (layer, transaction))
      "Preparation input references an unknown prior transaction"
    return .prior stageIndex output value

def translateOutputs : List PrepOutput → List (ℕ × ℕ) →
    Except String (List SplitStageOutput × List (ℕ × ℕ))
  | [], parts => .ok ([], parts)
  | .funding value :: rest, parts => do
    let (partIndex, parts) ← takePartIndex parts value
    let (outputs, parts) ← translateOutputs rest parts
    return (⟨value, .migration, some partIndex⟩ :: outputs, parts)
  | .intermediate value :: rest, parts => do
    let (outputs, parts) ← translateOutputs rest parts
    return (⟨value, .continuation, none⟩ :: outputs, parts)
  | .change value :: rest, parts => do
    let (outputs, parts) ← translateOutputs rest parts
    return (⟨value, .orchardChange, none⟩ :: outputs, parts)

/-- What the translation carries from transaction to transaction. -/
structure Translation where
  parts : List (ℕ × ℕ)
  coordinates : Coordinates
  stages : List SplitStagePlan

def denominationSplitActions : ℕ := prepTxActions

/-- Translate one transaction to a stage, checking its size and its balance. -/
def Translation.transaction (positiveInputIndices : List ℕ) (feePerStage : ℕ)
    (state : Translation) (layerIndex transactionIndex : ℕ) (tx : PrepTransaction) :
    Except String Translation := do
  let inputs ← tx.inputs.mapM (translateInput positiveInputIndices state.coordinates)
  let (outputs, parts) ← translateOutputs tx.outputs state.parts
  let requestedActions := inputs.length + outputs.length
  ensure (requestedActions ≤ denominationSplitActions)
    s!"Preparation transaction requests {requestedActions} actions instead of at most {denominationSplitActions}"
  let inputTotal ← checkedSum (inputs.map SplitStageInput.value) "Preparation input total overflow"
  let outputTotal ← checkedSum (outputs.map SplitStageOutput.value)
    "Preparation output total overflow"
  let spent ← orError (checkedAdd outputTotal feePerStage)
    "Preparation transaction value overflow"
  ensure (inputTotal = spent) "Preparation transaction does not conserve value"
  return {
    parts
    coordinates := state.coordinates ++ [((layerIndex, transactionIndex), state.stages.length)]
    stages := state.stages ++ [⟨layerIndex, inputs, outputs, feePerStage, requestedActions⟩] }

/-- The transactions of a plan in order, with their coordinates. -/
def locatedTransactions (layers : Layers) : List ((ℕ × ℕ) × PrepTransaction) :=
  layers.zipIdx.flatMap fun (txs, li) => txs.zipIdx.map fun (tx, ti) => ((li, ti), tx)

def translatePreparationPlan (preparation : PreparationPlan) (denominations : DenominationPlan)
    (positiveInputIndices fundingValues : List ℕ) (feePerStage : ℕ) :
    Except String PaddedDenominationPlan := do
  let (directInputs, parts) ← translateDirect positiveInputIndices preparation.directFunding
    fundingValues.zipIdx
  let final ← (locatedTransactions preparation.layers).foldlM
    (fun state (coordinates, tx) =>
      state.transaction positiveInputIndices feePerStage coordinates.1 coordinates.2 tx)
    ({ parts, coordinates := [], stages := [] } : Translation)
  ensure (final.parts = []) "Preparation plan did not assign every migration part"
  return {
    denominations
    stages := final.stages
    layerCount := preparation.layers.length
    directMigrationInputs := directInputs.insertionSort fun a b => a.partIndex ≤ b.partIndex }

def finishPlan (S : PlannerSorts) (context : PlanningContext)
    (crossingValues fundingValues : List ℕ) (preparation : PreparationPlan)
    (feePerStage migrationFee minimumOutput : ℕ) :
    Except String (Option PaddedDenominationPlan) := do
  if crossingValues.isEmpty then return none
  ensure (crossingValues.length = fundingValues.length)
    "Migration denomination and funding note counts differ"
  -- prepared notes are reloaded in this order and selected by part index
  let denominationFunding := S.parts.sort (crossingValues.zip fundingValues)
  let crossingValues := denominationFunding.map Prod.fst
  let fundingValues := denominationFunding.map Prod.snd
  let splitFee ← orError (checkedMul feePerStage preparation.transactionCount)
    "Preparation fee total overflow"
  let fundingTotal ← checkedSum fundingValues "Migration funding total overflow"
  let remaining ← orError
    ((checkedSub context.totalInput fundingTotal).bind fun value => checkedSub value splitFee)
    "Migration preparation plan exceeds selected Orchard value"
  let totalMigratable ← checkedSum crossingValues "Migratable denomination total overflow"
  let denominations : DenominationPlan :=
    { migrationOutputs := crossingValues
      orchardChange := if minimumOutput ≤ remaining then some remaining else none
      splitFee, migrationFee, totalInput := context.totalInput, totalMigratable }
  let plan ← translatePreparationPlan preparation denominations context.positiveInputIndices
    fundingValues feePerStage
  return some plan

/-! ## Entry points -/

/-- The search for a plan, with any refiner of the selected denominations. -/
def planPaddedDenominationsWithRefiner {σ : Type} (refine : ℕ → σ → DenominationRefinement × σ)
    (S : PlannerSorts) (inputValues : List ℕ) (feePerStage migrationFee minimumOutput : ℕ)
    (rng : σ) : Except String (Option PaddedDenominationPlan) := do
  match ← planningContext inputValues feePerStage minimumOutput with
  | none => return none
  | some context =>
    let _ ← orError (checkedAdd zip318MaxResidualValueZatoshi migrationFee)
      "Minimum migration funding note overflow"
    let state ← searchLoop refine S context feePerStage migrationFee ⟨[], [], ⟨[], []⟩⟩ rng
    finishPlan S context state.crossingValues state.fundingValues state.preparation feePerStage
      migrationFee minimumOutput

def planPaddedDenominationsWithPolicyAndRng {σ : Type} (S : PlannerSorts) (inputValues : List ℕ)
    (feePerStage migrationFee minimumOutput : ℕ) (policy : DenominationRefinementPolicy)
    (nextU32 : σ → ℕ × σ) (rng : σ) : Except String (Option PaddedDenominationPlan) :=
  planPaddedDenominationsWithRefiner (refineDenomination policy nextU32) S inputValues feePerStage
    migrationFee minimumOutput rng

def planPaddedDenominationsWithoutRefinement (S : PlannerSorts) (inputValues : List ℕ)
    (feePerStage migrationFee minimumOutput : ℕ) : Except String (Option PaddedDenominationPlan) :=
  planPaddedDenominationsWithRefiner (fun greedy rng => (.leaf greedy, rng)) S inputValues
    feePerStage migrationFee minimumOutput ()

/-- Rebuild the plan of denominations that were already approved. -/
def planPaddedDenominationsForTargets (S : PlannerSorts) (inputValues targetValues : List ℕ)
    (feePerStage migrationFee minimumOutput : ℕ) :
    Except String (Option PaddedDenominationPlan) := do
  if targetValues.isEmpty then return none
  let _ ← targetValues.mapM fun value =>
    ensure (isZip318CanonicalDenomination value)
      s!"Approved migration denomination {value} is not canonical"
  ensure (targetValues.IsChain (· ≥ ·)) approvedPlanOrderError
  match ← planningContext inputValues feePerStage minimumOutput with
  | none => .error approvedPlanStaleError
  | some context =>
    match ← preparationForCrossings S context targetValues feePerStage migrationFee with
    | none => .error approvedPlanStaleError
    | some (fundingValues, preparation) => do
      let appendable ← canAppendCanonicalDenomination S context targetValues fundingValues
        preparation feePerStage migrationFee
      ensure (appendable = false) approvedPlanStaleError
      finishPlan S context targetValues fundingValues preparation feePerStage migrationFee
        minimumOutput

end VizorWallet.Migration
