import VizorWallet.Migration.Preparation.Consolidation
import VizorWallet.Migration.Preparation.Split

/-!
# The preparation planner

`plan_preparation`: a largest-first layered greedy, with a fan-out of one note where a single note
can produce everything, and a fallback that consolidates the whole wallet into one note first.

## Main definitions

* `scheduleLayer` — one layer of the greedy: its two passes and its consolidation.
* `greedyLoop`, `mergeResidual` — the layers, and the merging of what they leave.
* `consolidateAll` — the loop of the fallback.
* `planPreparation` — the planner.
-/

namespace VizorWallet.Migration

/-! ## One layer of the greedy -/

/-- The funding values one note mints, those it leaves, and the budget it uses. -/
structure FundingScan where
  assigned : List ℕ
  kept : List ℕ
  used : ℕ

/-- Scan the remaining values, largest first, for those that fit in the budget. -/
def assignFunding (budget : ℕ) : List ℕ → ℕ → ℕ → FundingScan
  | [], used, _ => ⟨[], [], used⟩
  | v :: rest, used, 0 => ⟨[], v :: rest, used⟩
  | v :: rest, used, slots + 1 =>
    if used + v ≤ budget then
      let scan := assignFunding budget rest (used + v) slots
      { scan with assigned := v :: scan.assigned }
    else
      let scan := assignFunding budget rest used (slots + 1)
      { scan with kept := v :: scan.kept }

/-- A note, the funding values it will mint and its leftover budget. -/
structure Assignment where
  input : PrepInput
  assigned : List ℕ
  leftover : ℕ

/-- What the first pass has settled. -/
structure PassOne where
  remaining : List ℕ
  assignments : List Assignment := []
  consolidatable : List PrepInput := []

/-- Assign funding values to one note, or set it aside for consolidation. -/
def PassOne.step (fee : ℕ) (pass : PassOne) (input : PrepInput) : PassOne :=
  match pass.remaining.getLast? with
  | none => pass
  | some smallest =>
    if input.value ≤ fee ∨ input.value - fee < smallest then
      { pass with consolidatable := pass.consolidatable ++ [input] }
    else
      let budget := input.value - fee
      let scan := assignFunding budget pass.remaining 0 fundingOutputsPerTx
      { pass with
        remaining := scan.kept
        assignments := pass.assignments ++ [⟨input, scan.assigned, budget - scan.used⟩] }

/-- The note a positive leftover becomes for the next layer. -/
def leftoverInput (layer transaction output leftover : ℕ) : List PrepInput :=
  if 0 < leftover then [.prior layer transaction output leftover] else []

/-- Mint the funding notes of one assignment, routing its leftover forward. -/
def LayerBuild.mint (layer : ℕ) (build : LayerBuild) (a : Assignment) : LayerBuild :=
  { build with
    txs := build.txs ++ [⟨[a.input], a.assigned.map .funding ++ leftoverOutput a.leftover⟩]
    next := build.next ++ leftoverInput layer build.txs.length a.assigned.length a.leftover }

def passOne (S : UnstableSort PrepInput.value) (fee : ℕ) (remaining : List ℕ)
    (current : List PrepInput) : PassOne :=
  (S.sort current).foldl (PassOne.step fee) { remaining := remaining }

/-- The transactions of one layer, given what the first pass settled. -/
def passTwo (S : UnstableSort PrepInput.value) (fee layer : ℕ) (pass : PassOne) : LayerBuild :=
  consolidate S pass.consolidatable layer fee (pass.assignments.foldl (LayerBuild.mint layer) {})

theorem assignFunding_length (budget : ℕ) (remaining : List ℕ) (used slots : ℕ) :
    (assignFunding budget remaining used slots).assigned.length +
      (assignFunding budget remaining used slots).kept.length = remaining.length := by
  fun_induction assignFunding budget remaining used slots <;> grind

/-- A scan that can afford the last value assigns something. -/
theorem assignFunding_ne_nil (budget used slots : ℕ) {smallest : ℕ} {remaining : List ℕ}
    (hlast : remaining.getLast? = some smallest) (hslots : 0 < slots)
    (hle : used + smallest ≤ budget) :
    (assignFunding budget remaining used slots).assigned ≠ [] := by
  fun_induction assignFunding budget remaining used slots with
  | case1 => simp at hlast
  | case2 => omega
  | case3 => simp
  | case4 v rest used slots hgt scan ih =>
    rcases rest with _ | ⟨w, rest⟩
    · simp only [List.getLast?_singleton, Option.some.injEq] at hlast
      omega
    · exact ih (by simpa using hlast) hslots hle

/-- The first pass assigns at least one value to each note it uses. -/
theorem PassOne.step_length (fee : ℕ) (pass : PassOne) (input : PrepInput) :
    (pass.step fee input).remaining.length + (pass.step fee input).assignments.length ≤
        pass.remaining.length + pass.assignments.length ∧
      (pass.step fee input).assignments.length + (pass.step fee input).consolidatable.length ≤
        pass.assignments.length + pass.consolidatable.length + 1 := by
  unfold PassOne.step
  split
  · omega
  · rename_i smallest hlast
    split_ifs with hsmall
    · simp
      omega
    · have hlen := assignFunding_length (input.value - fee) pass.remaining 0 fundingOutputsPerTx
      have hne := List.length_pos_iff.2 (assignFunding_ne_nil (input.value - fee) 0
        fundingOutputsPerTx hlast (by decide) (by omega))
      simp only [List.length_append, List.length_singleton]
      omega

theorem passOne_length (S : UnstableSort PrepInput.value) (fee : ℕ) (remaining : List ℕ)
    (current : List PrepInput) :
    (passOne S fee remaining current).remaining.length +
        (passOne S fee remaining current).assignments.length ≤ remaining.length ∧
      (passOne S fee remaining current).assignments.length +
        (passOne S fee remaining current).consolidatable.length ≤ current.length := by
  have hfold : ∀ (notes : List PrepInput) (pass : PassOne),
      (notes.foldl (PassOne.step fee) pass).remaining.length +
          (notes.foldl (PassOne.step fee) pass).assignments.length ≤
          pass.remaining.length + pass.assignments.length ∧
        (notes.foldl (PassOne.step fee) pass).assignments.length +
          (notes.foldl (PassOne.step fee) pass).consolidatable.length ≤
          pass.assignments.length + pass.consolidatable.length + notes.length := by
    intro notes
    induction notes with
    | nil => simp
    | cons input notes ih =>
      intro pass
      have hstep := pass.step_length fee input
      have hrest := ih (pass.step fee input)
      simp only [List.foldl_cons, List.length_cons]
      omega
  simpa [passOne] using hfold (S.sort current) { remaining := remaining }

theorem foldl_mint_length (layer : ℕ) (assignments : List Assignment) (build : LayerBuild) :
    (assignments.foldl (LayerBuild.mint layer) build).next.length ≤
        build.next.length + assignments.length ∧
      (assignments.foldl (LayerBuild.mint layer) build).txs.length =
        build.txs.length + assignments.length ∧
      (assignments.foldl (LayerBuild.mint layer) build).leftover = build.leftover := by
  induction assignments generalizing build with
  | nil => simp
  | cons a rest ih =>
    obtain ⟨hnext, htxs, hleft⟩ := ih (build.mint layer a)
    rw [List.foldl_cons]
    refine ⟨hnext.trans ?_, htxs.trans ?_, hleft⟩
    · simp only [LayerBuild.mint, leftoverInput, List.length_append, List.length_cons]
      split_ifs <;> simp only [List.length_cons, List.length_nil] <;> omega
    · simp only [LayerBuild.mint, List.length_append, List.length_cons, List.length_nil]
      omega

/-- A layer leaves less to do: fewer values to mint, or fewer notes to mint them from. -/
theorem passTwo_lt (S : UnstableSort PrepInput.value) (fee layer : ℕ) (remaining : List ℕ)
    {current : List PrepInput} (hcurrent : current ≠ []) :
    (passOne S fee remaining current).remaining.length +
        (passTwo S fee layer (passOne S fee remaining current)).next.length <
      remaining.length + current.length := by
  have hone := passOne_length S fee remaining current
  have hpos := List.length_pos_iff.2 hcurrent
  set pass := passOne S fee remaining current
  have hmint := foldl_mint_length layer pass.assignments {}
  have hlen := consolidate_length S pass.consolidatable layer fee
    (pass.assignments.foldl (LayerBuild.mint layer) {})
  have hnext := consolidate_next S pass.consolidatable layer fee
    (pass.assignments.foldl (LayerBuild.mint layer) {})
  simp only [List.length_nil, Nat.zero_add] at hmint
  rw [hmint.2.2] at hlen
  simp only [List.length_nil, Nat.zero_add] at hlen
  unfold passTwo
  omega

/-! ## The loops -/

theorem consolidate_pool_lt (S : UnstableSort PrepInput.value) (pool : List PrepInput)
    (layer fee : ℕ) (h : (consolidate S pool layer fee {}).txs ≠ []) :
    ((consolidate S pool layer fee {}).next ++ (consolidate S pool layer fee {}).leftover).length <
      pool.length := by
  have hlen := consolidate_length S pool layer fee {}
  have hnext := consolidate_next S pool layer fee {}
  have hpos := List.length_pos_iff.2 h
  simp only [List.length_nil, List.length_append] at *
  omega

theorem length_feeders_append (layers : Layers) (txs : List PrepTransaction)
    (h : ∀ tx ∈ txs, tx.outputs.length = 1) :
    feeders (layers ++ [txs]) = feeders layers ++ layerFeeders layers.length 0 txs ∧
      (layerFeeders layers.length 0 txs).length ≤ txs.length := by
  refine ⟨by simp [feeders, feedersFrom, List.zipIdx_append], ?_⟩
  have hfirst : ∀ first, (layerFeeders layers.length first txs).length ≤ txs.length := by
    intro first
    induction txs generalizing first with
    | nil => simp [layerFeeders]
    | cons tx rest ih =>
      have hone := h tx List.mem_cons_self
      have hrest := ih (fun t ht => h t (List.mem_cons_of_mem _ ht)) (first + 1)
      have hhead : (txFeeders layers.length first tx.outputs).length ≤ 1 := by
        refine (List.length_filterMap_le _ _).trans ?_
        rw [List.length_zipIdx, hone]
      simp only [layerFeeders, List.zipIdx_cons, List.flatMap_cons, List.length_append,
        List.length_cons] at hrest ⊢
      omega
  exact hfirst 0

@[simp] theorem spentInputs_append (layers : Layers) (txs : List PrepTransaction) :
    spentInputs (layers ++ [txs]) = spentInputs layers ++ txs.flatMap PrepTransaction.inputs := by
  simp [spentInputs]

theorem spentOutputs_append (layers : Layers) (txs : List PrepTransaction) :
    spentOutputs (layers ++ [txs]) = spentOutputs layers ++
      (txs.flatMap PrepTransaction.inputs).filterMap PrepInput.coordinates? := by
  rw [spentOutputs, spentInputs_append, List.filterMap_append, spentOutputs]

/-- A feeder that was not merged was left over by the merging. -/
theorem length_unmerged_le {pool inputs leftover : List PrepInput}
    (h : pool.Perm (inputs ++ leftover)) :
    (pool.filter fun note => note.coordinates?.any fun c =>
      c ∉ inputs.filterMap PrepInput.coordinates?).length ≤ leftover.length := by
  have hnone : (inputs.filter fun note => note.coordinates?.any fun c =>
      c ∉ inputs.filterMap PrepInput.coordinates?) = [] := by
    rw [List.filter_eq_nil_iff]
    intro note hmem
    simp only [Option.any_eq_true, decide_eq_true_eq, not_exists, not_and, not_not]
    intro c hc
    exact List.mem_filterMap.2 ⟨note, hmem, hc⟩
  rw [(h.filter _).length_eq, List.filter_append, hnone, List.nil_append]
  exact List.length_filter_le _ _

theorem consolidate_one_output (S : UnstableSort PrepInput.value) (pool : List PrepInput)
    (layer fee : ℕ) : ∀ tx ∈ (consolidate S pool layer fee {}).txs, tx.outputs.length = 1 := by
  refine consolidate_induction S layer fee {} pool
    (motive := fun build _ => ∀ tx ∈ build.txs, tx.outputs.length = 1) (by simp)
    (fun _ _ _ h => h) ?_
  intro build batch rest _ _ _ h tx hmem
  rcases List.mem_append.1 hmem with hmem | hmem
  · exact h tx hmem
  · rw [List.mem_singleton.1 hmem]
    rfl

/-- Merging the unspent feeders leaves fewer of them. -/
theorem unconsumedFeeders_merge_lt (S : UnstableSort PrepInput.value) (fee : ℕ) (layers : Layers)
    (h : (consolidate S (unconsumedFeeders layers) layers.length fee {}).txs ≠ []) :
    (unconsumedFeeders (layers ++
      [(consolidate S (unconsumedFeeders layers) layers.length fee {}).txs])).length <
      (unconsumedFeeders layers).length := by
  have hlen := consolidate_length S (unconsumedFeeders layers) layers.length fee {}
  have hpos := List.length_pos_iff.2 h
  have hinputs := consolidate_inputs S (unconsumedFeeders layers) layers.length fee {}
  have hone := consolidate_one_output S (unconsumedFeeders layers) layers.length fee
  generalize consolidate S (unconsumedFeeders layers) layers.length fee {} = build at *
  obtain ⟨hfeeders, hnew⟩ := length_feeders_append layers build.txs hone
  have hperm : (unconsumedFeeders layers).Perm
      (build.txs.flatMap PrepTransaction.inputs ++ build.leftover) :=
    Multiset.coe_eq_coe.1 (by simpa using hinputs.symm)
  have hold := length_unmerged_le hperm
  have hsplit : (feeders layers).filter (fun note => note.coordinates?.any fun c =>
        c ∉ spentOutputs (layers ++ [build.txs])) =
      (unconsumedFeeders layers).filter fun note => note.coordinates?.any fun c =>
        c ∉ (build.txs.flatMap PrepTransaction.inputs).filterMap PrepInput.coordinates? := by
    rw [unconsumedFeeders, List.filter_filter]
    refine List.filter_congr fun note _ => ?_
    have hspent := spentOutputs_append layers build.txs
    rcases note.coordinates? with _ | c
    · rfl
    · simp only [Option.any_some, hspent, List.mem_append, not_or, Bool.decide_and]
      rw [Bool.and_comm]
  rw [unconsumedFeeders, hfeeders, List.filter_append, hsplit, List.length_append]
  have hfilter := List.length_filter_le (fun note : PrepInput => note.coordinates?.any fun c =>
    c ∉ spentOutputs (layers ++ [build.txs])) (layerFeeders layers.length 0 build.txs)
  simp only [List.length_nil, Nat.zero_add, Nat.mul_zero] at hlen
  omega

/-- Schedule layer after layer until nothing remains to mint. -/
def greedyLoop (S : UnstableSort PrepInput.value) (fee : ℕ) (remaining : List ℕ)
    (current : List PrepInput) (layers : Layers) : Except PrepError Layers :=
  if remaining = [] then .ok layers
  else if _hcurrent : current = [] then .error .insufficientFunds
  else
    let pass := passOne S fee remaining current
    let build := passTwo S fee layers.length pass
    if build.txs = [] then .error .insufficientFunds
    else greedyLoop S fee pass.remaining build.next (layers ++ [build.txs])
termination_by remaining.length + current.length
decreasing_by exact passTwo_lt S fee layers.length remaining _hcurrent

/-- Merge the feeders that no layer spends, for as long as that is worth a transaction. -/
def mergeResidual (S : UnstableSort PrepInput.value) (fee : ℕ) (layers : Layers) : Layers :=
  let pool := unconsumedFeeders layers
  if pool.length ≤ 1 then layers
  else
    let build := consolidate S pool layers.length fee {}
    if _hnone : build.txs = [] then layers else mergeResidual S fee (layers ++ [build.txs])
termination_by (unconsumedFeeders layers).length
decreasing_by exact unconsumedFeeders_merge_lt S fee layers _hnone

/-- Consolidate the pool until a single note is left. -/
def consolidateAll (S : UnstableSort PrepInput.value) (fee : ℕ) (current : List PrepInput)
    (layers : Layers) : Except PrepError (List PrepInput × Layers) :=
  if current.length ≤ 1 then .ok (current, layers)
  else
    let build := consolidate S current layers.length fee {}
    if _hnone : build.txs = [] then .error .insufficientFunds
    else consolidateAll S fee (build.next ++ build.leftover) (layers ++ [build.txs])
termination_by current.length
decreasing_by exact consolidate_pool_lt S current layers.length fee _hnone

/-! ## The planner -/

/-- The last of the notes of the largest value, as `max_by_key` picks it. -/
def largestNote (notes : List PrepInput) : Option PrepInput :=
  notes.foldl
    (fun best note =>
      match best with
      | some b => if b.value ≤ note.value then some note else some b
      | none => some note)
    none

theorem largestNote_eq (notes : List PrepInput) :
    largestNote notes = notes.foldl (fun best note => best.elim (some note) fun b =>
      if b.value ≤ note.value then some note else some b) none := by
  unfold largestNote
  congr 1
  funext best note
  cases best <;> rfl

def validateTotals (available funding : List Zatoshis) : Except PrepError Unit :=
  if (Zatoshis.sum available).isNone then .error .balanceInvalid
  else if (Zatoshis.sum funding).isNone then .error .balanceInvalid
  else .ok ()

/-- The positive funding values, largest first. -/
def fundingTargets (funding : List Zatoshis) : List ℕ :=
  sortDescending ((funding.map Zatoshis.val).filter fun v => 0 < v)

/-- The fan-out fast path: the note to split, when one is worth the whole tree. -/
def fanOutSource (current : List PrepInput) (remaining : List ℕ) (fee : ℕ) : Option PrepInput :=
  (largestNote current).filter fun big => (subtreeCost remaining fee).2 ≤ big.value

/-- The layers of the greedy, from the fan-out when there is one. -/
def greedyLayers (S : UnstableSort PrepInput.value) (fee : ℕ) (remaining : List ℕ)
    (current : List PrepInput) : Except PrepError Layers :=
  match fanOutSource current remaining fee with
  | some big => greedyLoop S fee [] current (buildSplit big big.value remaining fee 0 [])
  | none => greedyLoop S fee remaining current []

def planPreparationGreedy (S : UnstableSort PrepInput.value) (available funding : List Zatoshis)
    (feePerTx : Zatoshis) : Except PrepError PreparationPlan := do
  validateTotals available funding
  let scan := extractDirectFunding (available.map Zatoshis.val) (fundingTargets funding)
  if scan.kept = [] then return { layers := [], directFunding := scan.direct }
  let current := walletNotes (available.map Zatoshis.val) scan.used
  let layers ← greedyLayers S feePerTx.val scan.kept current
  return { layers := relabel (mergeResidual S feePerTx.val layers), directFunding := scan.direct }

/-- The layers of the fallback: everything into one note, then a balanced split. -/
def consolidatedLayers (S : UnstableSort PrepInput.value) (fee : ℕ) (targets : List ℕ)
    (current : List PrepInput) : Except PrepError Layers := do
  let (pool, layers) ← consolidateAll S fee current []
  match pool.getLast? with
  | none => .error .insufficientFunds
  | some source =>
    if source.value < (subtreeCost targets fee).2 then .error .insufficientFunds
    else return buildSplit source source.value targets fee layers.length layers

def planPreparationViaConsolidation (S : UnstableSort PrepInput.value)
    (available funding : List Zatoshis) (feePerTx : Zatoshis) :
    Except PrepError PreparationPlan := do
  validateTotals available funding
  let scan := extractDirectFunding (available.map Zatoshis.val) (fundingTargets funding)
  if scan.kept = [] then return { layers := [], directFunding := scan.direct }
  let current := (walletNotes (available.map Zatoshis.val) scan.used).filter fun n => 0 < n.value
  let layers ← consolidatedLayers S feePerTx.val scan.kept current
  return { layers := relabel layers, directFunding := scan.direct }

/-- Plan the transactions that mint `funding` from `available`. -/
def planPreparation (S : UnstableSort PrepInput.value) (available funding : List Zatoshis)
    (feePerTx : Zatoshis) : Except PrepError PreparationPlan :=
  match planPreparationGreedy S available funding feePerTx with
  | .error .insufficientFunds => planPreparationViaConsolidation S available funding feePerTx
  | result => result

end VizorWallet.Migration
