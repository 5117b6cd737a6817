import VizorWallet.Migration.Preparation.Residual
import Mathlib.Tactic.Abel

/-!
# What a balanced split appends

The cost of a split is computed by one recursion and its transactions are emitted by another.  The
two agree: the transactions are as many as the cost counts, they fill exactly the layers of the
depth, and what they leave is what the source carries beyond the cost.

## Main definitions

* `buildSplitChecked` — the split of a build that stops at a subtraction below zero.
* `addAll` — transactions pushed one after the other, each to its layer.
* `Emission` — what holds of the transactions of one or of several splits.

## Main results

* `splitDepth_of_mem_splitGroups` — the children of a node all have the same depth.
* `buildSplit_emits` — the transactions that a split adds.
-/

namespace VizorWallet.Migration

variable {targets : List ℕ} {fee sourceValue layer : ℕ} {source : PrepInput} {layers : Layers}

/-- `build_split` where a subtraction that underflows ends the call. -/
def buildSplitChecked (source : PrepInput) (sourceValue : ℕ) (targets : List ℕ) (fee layer : ℕ)
    (layers : Layers) : Option Layers :=
  if splitDepth targets.length ≤ 1 then do
    let rest ← checkedSub sourceValue fee
    let leftover ← checkedSub rest (wrappingSum targets)
    return addTransaction layers layer ⟨[source], targets.map .funding ++ leftoverOutput leftover⟩
  else do
    let childValues := (splitGroups targets).map fun group => (subtreeCost group fee).2
    let rest ← checkedSub sourceValue fee
    let leftover ← checkedSub rest (wrappingSum childValues)
    (splitGroups targets).attach.zipIdx.foldlM
      (fun layers' (group, output) =>
        buildSplitChecked
          (.prior layer (layerLength layers layer) output (subtreeCost group.1 fee).2)
          (subtreeCost group.1 fee).2 group.1 fee (layer + 1) layers')
      (addTransaction layers layer
        ⟨[source], childValues.map .intermediate ++ leftoverOutput leftover⟩)
termination_by targets.length
decreasing_by
  all_goals
    obtain ⟨g, hg⟩ := group
    exact (length_of_mem_splitGroups (by omega) hg).2

/-! ## The depth of the children -/

theorem subtreeCapacity_pos (depth : ℕ) : 0 < subtreeCapacity depth :=
  Nat.pow_pos (by decide)

theorem subtreeCapacity_mono {depth depth' : ℕ} (h : depth ≤ depth') :
    subtreeCapacity depth ≤ subtreeCapacity depth' :=
  Nat.pow_le_pow_right (by decide) h

/-- The depth is the only one whose capacity suffices when that of one layer less does not. -/
theorem splitDepth_eq {n depth : ℕ} (hlt : subtreeCapacity depth < n ∨ depth = 0 ∧ 0 < n)
    (hle : n ≤ subtreeCapacity (depth + 1)) : splitDepth n = depth + 1 := by
  have hpos : n ≠ 0 := by omega
  rw [splitDepth, if_neg hpos]
  obtain ⟨hfits, hleast⟩ := splitDepthFrom_spec n 1
  have hone : 1 ≤ splitDepthFrom n 1 := by omega
  generalize splitDepthFrom n 1 = found at *
  obtain h | h | h := Nat.lt_trichotomy found (depth + 1)
  · have hcap := subtreeCapacity_mono (show found ≤ depth by omega)
    omega
  · exact h
  · have hcap := subtreeCapacity_mono (show depth + 1 ≤ found - 1 by omega)
    omega

/-- The groups of an internal node are as large as its children may be, up to a half. -/
theorem groupCount_mul {n : ℕ} (h : 1 < splitDepth n) :
    n ≤ groupCount n * subtreeCapacity (splitDepth n - 1) ∧
      groupCount n * subtreeCapacity (splitDepth n - 1) ≤ 2 * n := by
  have hlt := (splitDepth_spec h).2
  have hpos := subtreeCapacity_pos (splitDepth n - 1)
  unfold groupCount
  generalize subtreeCapacity (splitDepth n - 1) = c at *
  have hmul := Nat.div_mul_le_self (n + c - 1) c
  have hceil := Nat.lt_mul_div_succ (n + c - 1) hpos
  rw [Nat.mul_comm, Nat.add_mul, Nat.one_mul] at hceil
  omega

/-- The children of an internal node all have one layer less. -/
theorem splitDepth_of_mem_splitGroups {group : List ℕ} (h : 1 < splitDepth targets.length)
    (hmem : group ∈ splitGroups targets) :
    splitDepth group.length + 1 = splitDepth targets.length := by
  obtain ⟨htwo, hlt⟩ := length_of_mem_splitGroups h hmem
  obtain ⟨hle, htwice⟩ := groupCount_mul h
  obtain ⟨hgroups, -, -⟩ := groupCount_spec h
  have hsizes := map_length_cutBatches targets (evenGroupSizes targets.length
    (groupCount targets.length)) (by rw [sum_evenGroupSizes (by omega)])
  have hmem' : group.length ∈ evenGroupSizes targets.length (groupCount targets.length) := by
    rw [← hsizes]
    exact List.mem_map_of_mem hmem
  obtain ⟨i, hi, hlen⟩ := List.mem_map.1 hmem'
  obtain ⟨d, hd⟩ : ∃ d, splitDepth targets.length = d + 2 :=
    ⟨splitDepth targets.length - 2, by omega⟩
  rw [hd] at hle htwice ⊢
  simp only [show d + 2 - 1 = d + 1 from rfl] at hle htwice
  set g := groupCount targets.length
  have hdiv := Nat.div_add_mod targets.length g
  have hmod := Nat.mod_lt targets.length (show 0 < g by omega)
  -- a group has at most the capacity of a child, rounded up
  have hupper : group.length ≤ subtreeCapacity (d + 1) := by
    by_contra hcon
    have hmul : g * (subtreeCapacity (d + 1) + 1) ≤ g * group.length :=
      Nat.mul_le_mul_left g (by omega)
    rw [Nat.mul_add, Nat.mul_one, ← hlen, Nat.mul_add] at hmul
    split_ifs at hmul with hextra <;> omega
  -- and at least half of it, rounded down
  have hcap : subtreeCapacity (d + 1) = 14 * subtreeCapacity d := by
    rw [subtreeCapacity, subtreeCapacity, pow_succ, Nat.mul_comm]
    rfl
  have hlower : 7 * subtreeCapacity d ≤ group.length := by
    have hhalf : 7 * subtreeCapacity d ≤ targets.length / g := by
      rw [Nat.le_div_iff_mul_le (by omega)]
      rw [hcap] at htwice
      have hcomm : g * (14 * subtreeCapacity d) = 2 * (7 * subtreeCapacity d * g) := by ring
      omega
    rw [← hlen]
    omega
  have hone := subtreeCapacity_pos d
  rw [splitDepth_eq (.inl (by omega)) hupper]

/-! ## Adding transactions -/

/-- Push transactions one after the other, each to its layer. -/
def addAll (layers : Layers) (added : List (ℕ × PrepTransaction)) : Layers :=
  added.foldl (fun layers' (layer, tx) => addTransaction layers' layer tx) layers

@[simp] theorem addAll_nil (layers : Layers) : addAll layers [] = layers := rfl

@[simp] theorem addAll_cons (layers : Layers) (p : ℕ × PrepTransaction)
    (added : List (ℕ × PrepTransaction)) :
    addAll layers (p :: added) = addAll (addTransaction layers p.1 p.2) added := rfl

theorem addAll_append (layers : Layers) (added added' : List (ℕ × PrepTransaction)) :
    addAll layers (added ++ added') = addAll (addAll layers added) added' :=
  List.foldl_append

theorem feeders_addTransaction (layers : Layers) (layer : ℕ) (tx : PrepTransaction) :
    (feeders (addTransaction layers layer tx) : Multiset PrepInput) =
      feeders layers + txFeeders layer (layerLength layers layer) tx.outputs := by
  have hpush := feeders_push tx (lt_length_ensureLayer layers layer)
  rw [layerLength_ensureLayer] at hpush
  have hempty := congrArg Book.minted (book_append_empty 0 layers (layer + 1 - layers.length))
  simp only [book, zero_add] at hempty
  rw [← hempty]
  exact hpush

theorem length_flatten_addAll (layers : Layers) (added : List (ℕ × PrepTransaction)) :
    (addAll layers added).flatten.length = layers.flatten.length + added.length := by
  induction added generalizing layers with
  | nil => rfl
  | cons p rest ih =>
    rw [addAll_cons, ih, length_flatten_addTransaction, List.length_cons]
    omega

/-- The transaction at a position of a layer. -/
def transactionAt (layers : Layers) (layer transaction : ℕ) : Option PrepTransaction :=
  (layers[layer]?.getD [])[transaction]?

theorem transactionAt_ensureLayer (layers : Layers) (layer l t : ℕ) :
    transactionAt (ensureLayer layers layer) l t = transactionAt layers l t := by
  unfold transactionAt ensureLayer
  rcases Nat.lt_or_ge l layers.length with hlt | hge
  · rw [List.getElem?_append_left hlt]
  · rw [List.getElem?_append_right hge, List.getElem?_replicate, List.getElem?_eq_none hge]
    split_ifs <;> rfl

/-- The transactions there stay where they are. -/
theorem transactionAt_addTransaction {layers : Layers} {l t : ℕ} {tx : PrepTransaction}
    (h : transactionAt layers l t = some tx) (layer : ℕ) (new : PrepTransaction) :
    transactionAt (addTransaction layers layer new) l t = some tx := by
  rw [← transactionAt_ensureLayer layers layer] at h
  unfold transactionAt at h ⊢
  rw [addTransaction, List.getElem?_modify]
  cases hl : (ensureLayer layers layer)[l]? with
  | none =>
    rw [hl] at h
    cases h
  | some txs =>
    rw [hl] at h
    simp only [Option.getD_some, Option.map_eq_map, Option.map_some] at h ⊢
    have hlt := (List.getElem?_eq_some_iff.1 h).1
    split_ifs
    · rwa [List.getElem?_append_left hlt]
    · exact h

theorem transactionAt_addAll {layers : Layers} {l t : ℕ} {tx : PrepTransaction}
    (h : transactionAt layers l t = some tx) (added : List (ℕ × PrepTransaction)) :
    transactionAt (addAll layers added) l t = some tx := by
  induction added generalizing layers with
  | nil => exact h
  | cons p rest ih => exact ih (transactionAt_addTransaction h p.1 p.2)

/-- A pushed transaction is at the end of its layer. -/
theorem transactionAt_pushed (layers : Layers) (layer : ℕ) (tx : PrepTransaction) :
    transactionAt (addTransaction layers layer tx) layer (layerLength layers layer) = some tx := by
  rw [← layerLength_ensureLayer]
  unfold transactionAt addTransaction layerLength
  rw [List.getElem?_modify, List.getElem?_eq_getElem (lt_length_ensureLayer layers layer)]
  simp

/-! ## What splits emit -/

/-- The transactions `added` spend the notes `sources`, leave the notes `rest`, mint `minted` and
fill `depth` layers from `layer` on. -/
structure Emission (layers : Layers) (added : List (ℕ × PrepTransaction))
    (sources rest : Multiset PrepInput) (layer depth : ℕ) (minted : List ℕ) : Prop where
  single : ∀ p ∈ added, p.2.inputs.length = 1
  outputs_le : ∀ p ∈ added, p.2.outputs.length ≤ fundingOutputsPerTx + 1
  occupied : ∀ l, l ∈ added.map Prod.fst ↔ sources ≠ 0 ∧ layer ≤ l ∧ l < layer + depth
  minted_eq : (added.flatMap fun p => p.2.outputs).filterMap PrepOutput.funding? = minted
  feeders_eq : (feeders (addAll layers added) : Multiset PrepInput) + sources =
    feeders layers + (added.flatMap fun p => p.2.inputs : List PrepInput) + rest

variable {added added' : List (ℕ × PrepTransaction)}
  {sources sources' rest rest' : Multiset PrepInput} {depth : ℕ} {minted minted' : List ℕ}
  {root : PrepTransaction}

theorem emission_nil (layers : Layers) (layer depth : ℕ) :
    Emission layers [] 0 0 layer depth [] where
  single := by simp
  outputs_le := by simp
  occupied := by simp
  minted_eq := rfl
  feeders_eq := by simp

/-- Splits side by side. -/
theorem Emission.append (h : Emission layers added sources rest layer depth minted)
    (h' : Emission (addAll layers added) added' sources' rest' layer depth minted') :
    Emission layers (added ++ added') (sources + sources') (rest + rest') layer depth
      (minted ++ minted') where
  single := List.forall_mem_append.2 ⟨h.single, h'.single⟩
  outputs_le := List.forall_mem_append.2 ⟨h.outputs_le, h'.outputs_le⟩
  occupied l := by
    have hnone : sources + sources' = 0 ↔ sources = 0 ∧ sources' = 0 := by
      simp only [← Multiset.card_eq_zero, Multiset.card_add, Nat.add_eq_zero_iff]
    rw [List.map_append, List.mem_append, h.occupied, h'.occupied, ← or_and_right, ne_eq, ne_eq,
      ne_eq, hnone, not_and_or]
  minted_eq := by
    rw [List.flatMap_append, List.filterMap_append, h.minted_eq, h'.minted_eq]
  feeders_eq := by
    have hleft := h.feeders_eq
    have hright := h'.feeders_eq
    rw [addAll_append, List.flatMap_append, ← Multiset.coe_add]
    calc (feeders (addAll (addAll layers added) added') : Multiset PrepInput) + (sources + sources')
      _ = (feeders (addAll (addAll layers added) added') + sources') + sources := by abel
      _ = (feeders (addAll layers added) + sources) +
            ((added'.flatMap fun p => p.2.inputs : List PrepInput) + rest') := by
          rw [hright]
          abel
      _ = _ := by
          rw [hleft]
          abel

/-- A transaction and splits of some notes it leaves. -/
theorem Emission.below
    (h : Emission layers [(layer, root)] sources (sources' + rest) layer 1 minted)
    (hsources : sources ≠ 0) (hsources' : sources' ≠ 0)
    (h' : Emission (addTransaction layers layer root) added sources' 0 (layer + 1) depth minted') :
    Emission layers ((layer, root) :: added) sources rest layer (depth + 1)
      (minted ++ minted') where
  single := List.forall_mem_cons.2 ⟨h.single _ (by simp), h'.single⟩
  outputs_le := List.forall_mem_cons.2 ⟨h.outputs_le _ (by simp), h'.outputs_le⟩
  occupied l := by
    rw [List.map_cons, List.mem_cons, h'.occupied]
    simp only [hsources, hsources', ne_eq, not_false_eq_true, true_and]
    omega
  minted_eq := by
    rw [List.flatMap_cons, List.filterMap_append, h'.minted_eq, ← h.minted_eq]
    simp
  feeders_eq := by
    have hroot := h.feeders_eq
    have hadded := h'.feeders_eq
    simp only [addAll_cons, addAll_nil, List.flatMap_cons, List.flatMap_nil, List.append_nil]
      at hroot
    rw [addAll_cons, List.flatMap_cons, ← Multiset.coe_add]
    refine add_right_cancel (b := sources') ?_
    calc (feeders (addAll (addTransaction layers layer root) added) : Multiset PrepInput) +
          sources + sources'
      _ = (feeders (addAll (addTransaction layers layer root) added) + sources') + sources := by
          abel
      _ = (feeders (addTransaction layers layer root) + sources) +
            (added.flatMap fun p => p.2.inputs : List PrepInput) := by
          rw [hadded]
          abel
      _ = _ := by
          rw [hroot]
          abel

/-- One transaction that spends the source. -/
theorem emission_root (source : PrepInput) (layer leftover : ℕ) (layers : Layers)
    {outputs : List PrepOutput} (hlen : outputs.length ≤ fundingOutputsPerTx) :
    Emission layers [(layer, ⟨[source], outputs ++ leftoverOutput leftover⟩)] {source}
      (txFeeders layer (layerLength layers layer) (outputs ++ leftoverOutput leftover)) layer 1
      (outputs.filterMap PrepOutput.funding?) where
  single := by simp
  outputs_le := by
    have hone := length_leftoverOutput leftover
    simp only [List.mem_singleton, forall_eq, List.length_append]
    omega
  occupied l := by
    simp only [List.map_cons, List.map_nil, List.mem_singleton, ne_eq,
      Multiset.singleton_ne_zero, not_false_eq_true, true_and]
    omega
  minted_eq := by simp
  feeders_eq := by
    rw [addAll_cons, addAll_nil, feeders_addTransaction]
    simp only [List.flatMap_cons, List.flatMap_nil, List.append_nil, Multiset.coe_singleton]
    abel

/-- A leftover is the last output of its transaction. -/
theorem leftoverInput_last (layer transaction leftover : ℕ) (outputs : List PrepOutput) :
    leftoverInput layer transaction ((outputs ++ leftoverOutput leftover).length - 1) leftover =
      leftoverInput layer transaction outputs.length leftover := by
  unfold leftoverInput leftoverOutput
  split_ifs
  · simp
  · rfl

/-- The transaction that spends the source and the transactions below it. -/
structure SplitEmission (source : PrepInput) (sourceValue : ℕ) (targets : List ℕ) (fee layer : ℕ)
    (layers : Layers) (root : PrepTransaction) (below : List (ℕ × PrepTransaction)) : Prop where
  layers_eq : buildSplit source sourceValue targets fee layer layers =
    addAll layers ((layer, root) :: below)
  spends : root.inputs = [source]
  emission : Emission layers ((layer, root) :: below) {source}
    (leftoverInput layer (layerLength layers layer) (root.outputs.length - 1)
      (sourceValue - (subtreeCost targets fee).2)) layer (splitDepth targets.length) targets

/-- Splitting the children one after the other. -/
theorem foldl_buildSplit_emits (transaction depth : ℕ) (groups : List (List ℕ)) (first : ℕ)
    (layers : Layers)
    (hchild : ∀ g ∈ groups, splitDepth g.length = depth ∧
      ∀ (source : PrepInput) (layers : Layers), ∃ root below,
        SplitEmission source (subtreeCost g fee).2 g fee (layer + 1) layers root below) :
    ∃ added, (groups.zipIdx first).foldl
        (fun layers' (g, o) =>
          buildSplit (childNote layer transaction o fee g) (subtreeCost g fee).2 g fee (layer + 1)
            layers')
        layers = addAll layers added ∧
      Emission layers added
        ((groups.zipIdx first).map fun (g, o) => childNote layer transaction o fee g :
          List PrepInput) 0 (layer + 1) depth groups.flatten := by
  induction groups generalizing first layers with
  | nil => exact ⟨[], rfl, emission_nil layers (layer + 1) depth⟩
  | cons g rest ih =>
    obtain ⟨hdepth, hsplit⟩ := hchild g List.mem_cons_self
    obtain ⟨root, below, hroot⟩ := hsplit (childNote layer transaction first fee g) layers
    obtain ⟨added, hadded, hemission⟩ := ih (first + 1) (addAll layers ((layer + 1, root) :: below))
      fun g' hg' => hchild g' (List.mem_cons_of_mem _ hg')
    refine ⟨((layer + 1, root) :: below) ++ added, ?_, ?_⟩
    · rw [List.zipIdx_cons, List.foldl_cons, addAll_append, ← hadded, ← hroot.layers_eq]
    · have hfirst := hroot.emission
      rw [Nat.sub_self, hdepth] at hfirst
      rw [List.zipIdx_cons, List.map_cons, List.flatten_cons, ← Multiset.cons_coe,
        ← Multiset.singleton_add]
      exact hfirst.append hemission

/-- A leaf mints its targets itself. -/
theorem splitEmission_leaf (hne : targets ≠ []) (hleaf : splitDepth targets.length ≤ 1)
    (hfit : SplitFits targets fee) (hcost : (subtreeCost targets fee).2 ≤ sourceValue) :
    SplitEmission source sourceValue targets fee layer layers
      ⟨[source], targets.map .funding ++
        leftoverOutput (sourceValue - (subtreeCost targets fee).2)⟩ [] := by
  have hfew := le_fundingOutputsPerTx_of_splitDepth hleaf
  have hdepth : splitDepth targets.length = 1 :=
    splitDepth_eq (.inr ⟨rfl, List.length_pos_iff.2 hne⟩) (by simpa [subtreeCapacity] using hfew)
  have hfees : (subtreeCost targets fee).1 = 1 := by rw [subtreeCost_leaf hleaf]
  have hvalue := hfit.cost
  unfold SplitFits at hfit
  rw [hfees, Nat.mul_one] at hfit hvalue
  rw [hvalue] at hcost ⊢
  constructor
  · rw [buildSplit_leaf hleaf, wrappingSum_of_lt (by omega), wrappingSub_wrappingSub (by omega),
      show sourceValue - fee - targets.sum = sourceValue - (targets.sum + fee) by omega]
    rfl
  · rfl
  · have hspend := emission_root source layer (sourceValue - (targets.sum + fee)) layers
      (show (targets.map PrepOutput.funding).length ≤ fundingOutputsPerTx by simpa using hfew)
    rw [txFeeders_fanOut, funding_map_funding] at hspend
    rw [hvalue, leftoverInput_last, List.length_map, hdepth]
    exact hspend

/-- An internal node fans out into its children, which are split below it. -/
theorem splitEmission_node (hnode : 1 < splitDepth targets.length) (hfit : SplitFits targets fee)
    (hcost : (subtreeCost targets fee).2 ≤ sourceValue)
    (hchild : ∀ g ∈ splitGroups targets, ∀ (source : PrepInput) (layers : Layers),
      ∃ root below, SplitEmission source (subtreeCost g fee).2 g fee (layer + 1) layers root
        below) :
    ∃ below, SplitEmission source sourceValue targets fee layer layers
      ⟨[source], ((splitGroups targets).map fun g => (subtreeCost g fee).2).map .intermediate ++
        leftoverOutput (sourceValue - (subtreeCost targets fee).2)⟩ below := by
  obtain ⟨hvalue, hlt⟩ := hfit.node_value hnode
  set values := (splitGroups targets).map fun g => (subtreeCost g fee).2 with hvalues
  set leftover := sourceValue - (subtreeCost targets fee).2 with hleftover
  have hlength : values.length = groupCount targets.length := by
    rw [hvalues, List.length_map, length_splitGroups]
  obtain ⟨hgroups, hfew, -⟩ := groupCount_spec hnode
  obtain ⟨below, hbelow, hforest⟩ := foldl_buildSplit_emits (layerLength layers layer)
    (splitDepth targets.length - 1) (splitGroups targets) 0
    (addTransaction layers layer ⟨[source], values.map .intermediate ++ leftoverOutput leftover⟩)
    fun g hg => ⟨by have := splitDepth_of_mem_splitGroups hnode hg; omega, hchild g hg⟩
  refine ⟨below, ?_, rfl, ?_⟩
  · rw [buildSplit_node hnode, ← hvalues, wrappingSum_of_lt (by omega),
      wrappingSub_wrappingSub (by omega),
      show sourceValue - fee - values.sum = leftover by omega]
    exact hbelow
  · have hspend := emission_root source layer leftover layers
      (show (values.map PrepOutput.intermediate).length ≤ fundingOutputsPerTx by
        rwa [List.length_map, hlength])
    -- the feeders of the node are the notes that its children spend
    have hnotes : ((values.zipIdx.map fun entry =>
        PrepInput.prior layer (layerLength layers layer) entry.2 entry.1) : List PrepInput) =
        (splitGroups targets).zipIdx.map fun entry =>
          childNote layer (layerLength layers layer) entry.2 fee entry.1 := by
      simp [hvalues, List.zipIdx_map, childNote, Function.comp_def]
    have hsome : (((splitGroups targets).zipIdx.map fun entry =>
        childNote layer (layerLength layers layer) entry.2 fee entry.1 : List PrepInput) :
          Multiset PrepInput) ≠ 0 := by
      rw [← hnotes, ne_eq, Multiset.coe_eq_zero, List.map_eq_nil_iff, List.zipIdx_eq_nil_iff]
      exact List.length_pos_iff.1 (by omega)
    rw [txFeeders_node, hnotes, ← Multiset.coe_add, funding_map_intermediate] at hspend
    have hall := hspend.below (Multiset.singleton_ne_zero source) hsome hforest
    rw [splitGroups_flatten hnode, List.nil_append,
      show splitDepth targets.length - 1 + 1 = splitDepth targets.length by omega] at hall
    rw [leftoverInput_last, List.length_map]
    exact hall

/-- A split of a note that covers its cost. -/
theorem buildSplit_emits (hne : targets ≠ []) (hfit : SplitFits targets fee)
    (hcost : (subtreeCost targets fee).2 ≤ sourceValue) (source : PrepInput) (layer : ℕ)
    (layers : Layers) :
    ∃ root below, SplitEmission source sourceValue targets fee layer layers root below := by
  induction hn : targets.length using Nat.strong_induction_on
    generalizing targets layers source sourceValue layer with
  | _ n ih =>
    subst hn
    rcases Nat.lt_or_ge 1 (splitDepth targets.length) with hnode | hleaf
    · refine ⟨_, splitEmission_node hnode hfit hcost fun g hg source layers => ?_⟩
      obtain ⟨htwo, hshorter⟩ := length_of_mem_splitGroups hnode hg
      have hg_ne : g ≠ [] := List.length_pos_iff.1 (by omega)
      exact ih g.length hshorter hg_ne (hfit.of_mem hnode hg) le_rfl source (layer + 1) layers rfl
    · exact ⟨_, [], splitEmission_leaf hne hleaf hfit hcost⟩

/-! ## Subtractions -/

theorem buildSplitChecked_leaf (h : splitDepth targets.length ≤ 1) :
    buildSplitChecked source sourceValue targets fee layer layers =
      (checkedSub sourceValue fee).bind fun rest =>
        (checkedSub rest (wrappingSum targets)).bind fun leftover =>
          some (addTransaction layers layer
            ⟨[source], targets.map .funding ++ leftoverOutput leftover⟩) := by
  rw [buildSplitChecked, if_pos h]
  rfl

theorem buildSplitChecked_node (h : 1 < splitDepth targets.length) :
    buildSplitChecked source sourceValue targets fee layer layers =
      (checkedSub sourceValue fee).bind fun rest =>
        (checkedSub rest
          (wrappingSum ((splitGroups targets).map fun g => (subtreeCost g fee).2))).bind
          fun leftover =>
            (splitGroups targets).zipIdx.foldlM
              (fun layers' (group, output) =>
                buildSplitChecked (childNote layer (layerLength layers layer) output fee group)
                  (subtreeCost group fee).2 group fee (layer + 1) layers')
              (addTransaction layers layer
                ⟨[source], ((splitGroups targets).map fun g => (subtreeCost g fee).2).map
                  .intermediate ++ leftoverOutput leftover⟩) := by
  rw [buildSplitChecked, if_neg (by omega)]
  conv_rhs =>
    enter [2, rest, 2, leftover]
    rw [← List.attach_map_subtype_val (splitGroups targets), List.zipIdx_map, List.foldlM_map]
  simp [childNote]

/-- A fold in which nothing fails. -/
theorem foldlM_eq_some_foldl {α β : Type*} {step : β → α → Option β} {step' : β → α → β}
    {l : List α} (h : ∀ b, ∀ a ∈ l, step b a = some (step' b a)) (b : β) :
    l.foldlM step b = some (l.foldl step' b) := by
  induction l generalizing b with
  | nil => rfl
  | cons a rest ih =>
    rw [List.foldlM_cons, h b a List.mem_cons_self, List.foldl_cons]
    exact ih (fun b' a' ha' => h b' a' (List.mem_cons_of_mem _ ha')) (step' b a)

/-- A split whose sums stay in range never subtracts below zero. -/
theorem buildSplitChecked_eq (hfit : SplitFits targets fee)
    (hcost : (subtreeCost targets fee).2 ≤ sourceValue) (source : PrepInput) (layer : ℕ)
    (layers : Layers) :
    buildSplitChecked source sourceValue targets fee layer layers =
      some (buildSplit source sourceValue targets fee layer layers) := by
  induction hn : targets.length using Nat.strong_induction_on
    generalizing targets layers source sourceValue layer with
  | _ n ih =>
    subst hn
    rcases Nat.lt_or_ge 1 (splitDepth targets.length) with hnode | hleaf
    · obtain ⟨hvalue, hlt⟩ := hfit.node_value hnode
      rw [buildSplitChecked_node hnode, buildSplit_node hnode, wrappingSum_of_lt (by omega),
        wrappingSub_wrappingSub (by omega), checkedSub_of_le (by omega), Option.bind_some,
        checkedSub_of_le (by omega), Option.bind_some]
      -- each child carries just its own cost
      refine foldlM_eq_some_foldl (fun layers' x hx => ?_) _
      obtain ⟨g, o⟩ := x
      have hg := List.fst_mem_of_mem_zipIdx hx
      exact ih g.length (length_of_mem_splitGroups hnode hg).2 (hfit.of_mem hnode hg) le_rfl
        (childNote layer (layerLength layers layer) o fee g) (layer + 1) layers' rfl
    · have hfees : (subtreeCost targets fee).1 = 1 := by rw [subtreeCost_leaf hleaf]
      have hvalue := hfit.cost
      unfold SplitFits at hfit
      rw [hfees, Nat.mul_one] at hfit hvalue
      rw [buildSplitChecked_leaf hleaf, buildSplit_leaf hleaf, wrappingSum_of_lt (by omega),
        wrappingSub_wrappingSub (by omega), checkedSub_of_le (by omega), Option.bind_some,
        checkedSub_of_le (by omega), Option.bind_some]

/-! ## Cost and emission -/

/-- The notes of the new transactions that nothing below the root spends. -/
theorem unspent_eq {notes before spent left : List PrepInput}
    (hnodup : notes.Nodup) (hone : left.length ≤ 1)
    (h : (notes : Multiset PrepInput) = before + spent + left) :
    notes.filter (fun note => note ∉ before ∧ note ∉ spent) = left := by
  have hperm : notes.Perm (before ++ spent ++ left) := by
    rw [← Multiset.coe_eq_coe, h, ← Multiset.coe_add, ← Multiset.coe_add]
  have hall := hperm.nodup_iff.1 hnodup
  obtain ⟨-, hleft, hdisj⟩ := List.nodup_append'.1 hall
  have hfilter := hperm.filter (fun note => note ∉ before ∧ note ∉ spent)
  have hold : (before ++ spent).filter (fun note => note ∉ before ∧ note ∉ spent) = [] := by
    rw [List.filter_eq_nil_iff]
    intro note hnote
    rcases List.mem_append.1 hnote with hmem | hmem <;> simp [hmem]
  have hnew : left.filter (fun note => note ∉ before ∧ note ∉ spent) = left := by
    rw [List.filter_eq_self]
    intro note hnote
    have hnot := fun hmem => hdisj (a := note) hmem hnote
    simpa using hnot
  rw [List.filter_append, hold, hnew, List.nil_append] at hfilter
  rcases left with _ | ⟨note, _ | ⟨other, rest⟩⟩
  · exact hfilter.eq_nil
  · exact hfilter.eq_singleton
  · simp at hone

/-- A split appends as many transactions as its cost counts, in exactly the layers of its depth. It
mints its targets, and the only note it leaves is what the source carries beyond the cost. -/
theorem buildSplit_agrees_with_subtreeCost (hne : targets ≠ []) (hfit : SplitFits targets fee)
    (hcost : (subtreeCost targets fee).2 ≤ sourceValue) (source : PrepInput) (layer : ℕ)
    (layers : Layers) :
    let after := buildSplit source sourceValue targets fee layer layers
    buildSplitChecked source sourceValue targets fee layer layers = some after ∧
      ∃ (root : PrepTransaction) (below : List (ℕ × PrepTransaction)),
        let added := (layer, root) :: below
        after = addAll layers added ∧
        added.length = (subtreeCost targets fee).1 ∧
        (∀ l, l ∈ added.map Prod.fst ↔ layer ≤ l ∧ l < layer + splitDepth targets.length) ∧
        (∀ p ∈ added, p.2.inputs.length = 1 ∧ p.2.outputs.length ≤ 15) ∧
        ((added.flatMap fun p => p.2.outputs).filterMap PrepOutput.funding?).Perm targets ∧
        root.inputs = [source] ∧
        transactionAt after layer (layerLength layers layer) = some root ∧
        (feeders after).filter (fun note =>
            note ∉ feeders layers ∧ note ∉ below.flatMap fun p => p.2.inputs) =
          leftoverInput layer (layerLength layers layer) (root.outputs.length - 1)
            (sourceValue - (subtreeCost targets fee).2) := by
  intro after
  obtain ⟨root, below, hsplit⟩ := buildSplit_emits hne hfit hcost source layer layers
  have hemission := hsplit.emission
  refine ⟨buildSplitChecked_eq hfit hcost source layer layers, root, below, hsplit.layers_eq, ?_,
    ?_, ?_, .of_eq hemission.minted_eq, hsplit.spends, ?_, ?_⟩
  · have hcount := length_flatten_buildSplit source sourceValue targets fee layer layers
    rw [hsplit.layers_eq, length_flatten_addAll] at hcount
    omega
  · intro l
    rw [hemission.occupied l]
    simp
  · exact fun p hp => ⟨hemission.single p hp, hemission.outputs_le p hp⟩
  · rw [show after = addAll layers ((layer, root) :: below) from hsplit.layers_eq, addAll_cons]
    exact transactionAt_addAll (transactionAt_pushed layers layer root) below
  · have hfeeders := hemission.feeders_eq
    rw [← hsplit.layers_eq, List.flatMap_cons, hsplit.spends, ← Multiset.coe_add,
      Multiset.coe_singleton] at hfeeders
    refine unspent_eq (List.Nodup.of_map _ (nodup_feeders after)) (card_leftoverInput _ _ _ _) ?_
    refine add_right_cancel (b := {source}) (hfeeders.trans ?_)
    abel

/-- A wallet note that pays for two layers. -/
theorem buildSplit_agrees_with_subtreeCost_sample :
    SplitFits (List.replicate 20 5) 1 ∧ (subtreeCost (List.replicate 20 5) 1).2 ≤ 200 ∧
      buildSplitChecked (.wallet 0 200) 200 (List.replicate 20 5) 1 0 [] =
        some (buildSplit (.wallet 0 200) 200 (List.replicate 20 5) 1 0 []) := by
  have hne : List.replicate 20 5 ≠ [] := by decide
  have hcount := (subtreeCost_fst_le 1 hne).1
  have hsum : (List.replicate 20 5).sum = 100 := rfl
  rw [List.length_replicate] at hcount
  have hfit : SplitFits (List.replicate 20 5) 1 := by
    unfold SplitFits u64Size
    omega
  have hcost : (subtreeCost (List.replicate 20 5) 1).2 ≤ 200 := by
    rw [hfit.cost]
    omega
  exact ⟨hfit, hcost,
    (buildSplit_agrees_with_subtreeCost hne hfit hcost (.wallet 0 200) 0 []).1⟩

end VizorWallet.Migration
