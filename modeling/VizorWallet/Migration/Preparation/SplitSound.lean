import VizorWallet.Migration.Preparation.Ledger
import Mathlib.Algebra.BigOperators.Ring.List
import Mathlib.Algebra.Order.BigOperators.Group.List

/-!
# The balanced split is sound

The tree of a balanced split has fewer transactions than targets, so its cost is the plain sum of
the targets and the fees when that sum is a `u64`.  `buildSplit` then mints exactly its targets
from a note that covers the cost.
-/

namespace VizorWallet.Migration

variable {targets : List ℕ} {fee : ℕ}

/-- The totals over the children of an internal node: the counts add up, and so do the values in
the `u64` range. -/
theorem foldl_subtreeCost_fst (groups : List (List ℕ)) (start : ℕ × ℕ) :
    (groups.foldl
      (fun total g => (total.1 + (subtreeCost g fee).1, wrappingAdd total.2 (subtreeCost g fee).2))
      start).1 = start.1 + (groups.map fun g => (subtreeCost g fee).1).sum := by
  induction groups generalizing start with
  | nil => simp
  | cons g rest ih =>
    rw [List.foldl_cons, ih, List.map_cons, List.sum_cons]
    exact Nat.add_assoc _ _ _

theorem foldl_subtreeCost_snd (groups : List (List ℕ)) (start : ℕ × ℕ)
    (hfit : start.2 + (groups.map fun g => (subtreeCost g fee).2).sum < u64Size) :
    (groups.foldl
      (fun total g => (total.1 + (subtreeCost g fee).1, wrappingAdd total.2 (subtreeCost g fee).2))
      start).2 = start.2 + (groups.map fun g => (subtreeCost g fee).2).sum := by
  induction groups generalizing start with
  | nil => simp
  | cons g rest ih =>
    simp only [List.map_cons, List.sum_cons] at hfit
    rw [List.foldl_cons, wrappingAdd_of_lt (by omega), ih _ (by simp only; omega), List.map_cons,
      List.sum_cons]
    exact Nat.add_assoc _ _ _

theorem subtreeCost_leaf (h : splitDepth targets.length ≤ 1) :
    subtreeCost targets fee = (1, wrappingAdd (wrappingSum targets) fee) := by
  rw [subtreeCost, if_pos h]

theorem subtreeCost_node (h : 1 < splitDepth targets.length) :
    subtreeCost targets fee =
      (splitGroups targets).foldl
        (fun total g =>
          (total.1 + (subtreeCost g fee).1, wrappingAdd total.2 (subtreeCost g fee).2))
        (1, fee) := by
  rw [subtreeCost, if_neg (by omega)]
  exact List.foldl_attach (f := fun (total : ℕ × ℕ) g =>
    (total.1 + (subtreeCost g fee).1, wrappingAdd total.2 (subtreeCost g fee).2)) (b := (1, fee))

/-- An internal node has its own transaction and those of its children. -/
theorem subtreeCost_node_fst (fee : ℕ) (h : 1 < splitDepth targets.length) :
    (subtreeCost targets fee).1 =
      1 + ((splitGroups targets).map fun g => (subtreeCost g fee).1).sum := by
  rw [subtreeCost_node h, foldl_subtreeCost_fst]

theorem sum_splitGroups (h : 1 < splitDepth targets.length) :
    ((splitGroups targets).map List.sum).sum = targets.sum := by
  rw [← List.sum_flatten, splitGroups_flatten h]

theorem sum_length_splitGroups (h : 1 < splitDepth targets.length) :
    ((splitGroups targets).map List.length).sum = targets.length := by
  rw [← List.length_flatten, splitGroups_flatten h]

/-- A split has at most as many transactions as targets. -/
theorem subtreeCost_fst_le (fee : ℕ) (hne : targets ≠ []) :
    (subtreeCost targets fee).1 ≤ targets.length ∧
      (2 ≤ targets.length → (subtreeCost targets fee).1 < targets.length) := by
  induction hn : targets.length using Nat.strong_induction_on generalizing targets with
  | _ n ih =>
    subst hn
    have hpos := List.length_pos_iff.2 hne
    rcases Nat.lt_or_ge 1 (splitDepth targets.length) with hnode | hleaf
    · have hchild : ∀ g ∈ splitGroups targets, (subtreeCost g fee).1 + 1 ≤ g.length := by
        intro g hg
        obtain ⟨htwo, hlt⟩ := length_of_mem_splitGroups hnode hg
        have hg_ne : g ≠ [] := List.length_pos_iff.1 (by omega)
        exact (ih g.length hlt hg_ne rfl).2 htwo
      have hcounts : ((splitGroups targets).map fun g => (subtreeCost g fee).1).sum +
          (splitGroups targets).length ≤ targets.length := by
        rw [← sum_length_splitGroups hnode]
        refine le_trans (le_of_eq ?_) (List.sum_le_sum hchild)
        simp [List.sum_map_add]
      have hgroups := (groupCount_spec hnode).1
      rw [← length_splitGroups] at hgroups
      rw [subtreeCost_node_fst fee hnode]
      omega
    · rw [subtreeCost_leaf hleaf]
      exact ⟨hpos, fun htwo => htwo⟩

/-- The targets and the fees of a split stay in the `u64` range. -/
def SplitFits (targets : List ℕ) (fee : ℕ) : Prop :=
  targets.sum + fee * (subtreeCost targets fee).1 < u64Size

/-- A child of a split that stays in range does so too. -/
theorem SplitFits.of_mem (h : 1 < splitDepth targets.length) (hfit : SplitFits targets fee)
    {group : List ℕ} (hmem : group ∈ splitGroups targets) : SplitFits group fee := by
  have hsum : group.sum ≤ targets.sum := by
    rw [← sum_splitGroups h]
    exact List.single_le_sum (by simp) _ (List.mem_map_of_mem hmem)
  have hcount : (subtreeCost group fee).1 ≤ (subtreeCost targets fee).1 := by
    rw [subtreeCost_node_fst fee h]
    exact (List.single_le_sum (by simp) _
      (List.mem_map_of_mem (f := fun g => (subtreeCost g fee).1) hmem)).trans (Nat.le_add_left _ _)
  have hfees := Nat.mul_le_mul_left fee hcount
  unfold SplitFits at hfit ⊢
  omega

/-- The cost of a split that stays in range is its targets and a fee for each transaction. -/
theorem SplitFits.cost (hfit : SplitFits targets fee) :
    (subtreeCost targets fee).2 = targets.sum + fee * (subtreeCost targets fee).1 := by
  induction hn : targets.length using Nat.strong_induction_on generalizing targets with
  | _ n ih =>
    subst hn
    rcases Nat.lt_or_ge 1 (splitDepth targets.length) with hnode | hleaf
    · have hvalues : ((splitGroups targets).map fun g => (subtreeCost g fee).2).sum =
          targets.sum + fee * ((splitGroups targets).map fun g => (subtreeCost g fee).1).sum := by
        rw [List.map_congr_left fun g hg => ih g.length (length_of_mem_splitGroups hnode hg).2
          (hfit.of_mem hnode hg) rfl, List.sum_map_add, sum_splitGroups hnode,
          List.sum_map_mul_left]
      have hcount := subtreeCost_node_fst fee hnode
      unfold SplitFits at hfit
      rw [hcount, Nat.mul_add, Nat.mul_one] at hfit ⊢
      rw [subtreeCost_node hnode, foldl_subtreeCost_snd _ _ (by simp only; omega)]
      simp only
      omega
    · unfold SplitFits at hfit
      rw [subtreeCost_leaf hleaf] at hfit ⊢
      simp only [Nat.mul_one] at hfit ⊢
      rw [wrappingSum_of_lt (by omega), wrappingAdd_of_lt hfit]

/-- The value of an internal node is its fee and the values of its children. -/
theorem SplitFits.node_value (h : 1 < splitDepth targets.length) (hfit : SplitFits targets fee) :
    (subtreeCost targets fee).2 =
        fee + ((splitGroups targets).map fun g => (subtreeCost g fee).2).sum ∧
      (subtreeCost targets fee).2 < u64Size := by
  have hvalues : ((splitGroups targets).map fun g => (subtreeCost g fee).2).sum =
      targets.sum + fee * ((splitGroups targets).map fun g => (subtreeCost g fee).1).sum := by
    rw [List.map_congr_left fun g hg => (hfit.of_mem h hg).cost, List.sum_map_add,
      sum_splitGroups h, List.sum_map_mul_left]
  have hcost := hfit.cost
  have hcount := subtreeCost_node_fst fee h
  unfold SplitFits at hfit
  rw [hcount, Nat.mul_add, Nat.mul_one] at hfit hcost
  omega

/-! ## The layers of a split -/

variable {wallet pool : Multiset PrepInput} {layers : Layers} {minted : Multiset ℕ}
  {source : PrepInput} {layer : ℕ}

theorem buildSplit_leaf (h : splitDepth targets.length ≤ 1) (sourceValue : ℕ) :
    buildSplit source sourceValue targets fee layer layers =
      addTransaction layers layer
        ⟨[source], targets.map .funding ++
          leftoverOutput (wrappingSub (wrappingSub sourceValue fee) (wrappingSum targets))⟩ := by
  rw [buildSplit, if_pos h]

/-- The note that the child of index `output` of a split splits further. -/
def childNote (layer transaction output : ℕ) (fee : ℕ) (group : List ℕ) : PrepInput :=
  .prior layer transaction output (subtreeCost group fee).2

theorem buildSplit_node (h : 1 < splitDepth targets.length) (sourceValue : ℕ) :
    buildSplit source sourceValue targets fee layer layers =
      (splitGroups targets).zipIdx.foldl
        (fun layers' (group, output) =>
          buildSplit (childNote layer (layerLength layers layer) output fee group)
            (subtreeCost group fee).2 group fee (layer + 1) layers')
        (addTransaction layers layer
          ⟨[source], ((splitGroups targets).map fun g => (subtreeCost g fee).2).map .intermediate ++
            leftoverOutput (wrappingSub (wrappingSub sourceValue fee)
              (wrappingSum ((splitGroups targets).map fun g => (subtreeCost g fee).2)))⟩) := by
  rw [buildSplit, if_neg (by omega)]
  conv_rhs => rw [← List.attach_map_subtype_val (splitGroups targets), List.zipIdx_map,
    List.foldl_map]
  simp [childNote]

@[simp] theorem sum_leftoverOutput (leftover : ℕ) :
    ((leftoverOutput leftover).map PrepOutput.value).sum = leftover := by
  unfold leftoverOutput
  split_ifs
  · simp
  · simp
    omega

theorem length_leftoverOutput (leftover : ℕ) : (leftoverOutput leftover).length ≤ 1 := by
  unfold leftoverOutput
  split_ifs <;> simp

@[simp] theorem funding_leftoverOutput (leftover : ℕ) :
    (leftoverOutput leftover).filterMap PrepOutput.funding? = [] := by
  unfold leftoverOutput
  split_ifs <;> rfl

@[simp] theorem funding_map_funding (values : List ℕ) :
    (values.map PrepOutput.funding).filterMap PrepOutput.funding? = values := by
  rw [List.filterMap_map]
  exact List.filterMap_some

@[simp] theorem funding_map_intermediate (values : List ℕ) :
    (values.map PrepOutput.intermediate).filterMap PrepOutput.funding? = [] := by
  rw [List.filterMap_map, List.filterMap_eq_nil_iff]
  exact fun _ _ => rfl

@[simp] theorem sum_map_funding (values : List ℕ) :
    ((values.map PrepOutput.funding).map PrepOutput.value).sum = values.sum := by
  simp [Function.comp_def]

@[simp] theorem sum_map_intermediate (values : List ℕ) :
    ((values.map PrepOutput.intermediate).map PrepOutput.value).sum = values.sum := by
  simp [Function.comp_def]

theorem wrappingSub_wrappingSub {value fee total : ℕ} (h : fee + total ≤ value) :
    wrappingSub (wrappingSub value fee) total = value - fee - total := by
  rw [wrappingSub_of_le (show fee ≤ value by omega), wrappingSub_of_le (by omega)]

/-- One note fanned out into at most `fundingOutputsPerTx` notes and a leftover. -/
theorem wellFormed_fanOut {outputs : List PrepOutput} {leftover : ℕ}
    (hsource : source.Before layer) (hlen : outputs.length ≤ fundingOutputsPerTx)
    (hsum : (outputs.map PrepOutput.value).sum + leftover + fee = source.value) :
    WellFormed fee layer ⟨[source], outputs ++ leftoverOutput leftover⟩ where
  inputs_ne_nil := by simp
  actionCount_le := by
    have hone := length_leftoverOutput leftover
    have hmax : fundingOutputsPerTx + 2 = prepTxActions := rfl
    simp only [PrepTransaction.actionCount, List.length_append, List.length_singleton]
    omega
  balanced := by
    simp only [List.map_append, List.sum_append, sum_leftoverOutput, List.map_cons, List.map_nil,
      List.sum_cons, List.sum_nil]
    omega
  before := by simpa using hsource

/-- The feeders of leading intermediate outputs. -/
theorem txFeeders_map_intermediate (layer transaction : ℕ) (values : List ℕ)
    (rest : List PrepOutput) :
    (values.zipIdx.map fun (v, o) => PrepInput.prior layer transaction o v : Multiset PrepInput) ≤
      txFeeders layer transaction (values.map .intermediate ++ rest) := by
  have hfeeder : (fun x : PrepOutput × ℕ => x.1.feeder? layer transaction x.2) ∘
      Prod.map PrepOutput.intermediate id =
        some ∘ fun x => PrepInput.prior layer transaction x.2 x.1 := rfl
  simp only [txFeeders, List.zipIdx_append, List.filterMap_append, List.zipIdx_map,
    List.filterMap_map, hfeeder, List.filterMap_eq_map, ← Multiset.coe_add]
  exact Multiset.le_add_right _ _

/-- Splitting the children one after the other mints the targets of all of them. -/
theorem foldl_buildSplit_sound {transaction : ℕ} (groups : List (List ℕ)) (first : ℕ)
    (hchild : ∀ g ∈ groups, ∀ (source : PrepInput) (pool : Multiset PrepInput) (layers : Layers)
      (minted : Multiset ℕ), Sound wallet fee layers ({source} + pool) minted →
      source.Before (layer + 1) → source.value = (subtreeCost g fee).2 →
      Sound wallet fee (buildSplit source (subtreeCost g fee).2 g fee (layer + 1) layers) pool
        (minted + g))
    (h : Sound wallet fee layers
      (((groups.zipIdx first).map fun (g, o) => childNote layer transaction o fee g :
        List PrepInput) + pool) minted) :
    Sound wallet fee
      ((groups.zipIdx first).foldl
        (fun layers' (g, o) =>
          buildSplit (childNote layer transaction o fee g) (subtreeCost g fee).2 g fee (layer + 1)
            layers')
        layers)
      pool (minted + groups.flatten) := by
  induction groups generalizing first layers minted with
  | nil => simpa using h
  | cons g rest ih =>
    rw [List.zipIdx_cons, List.map_cons, ← Multiset.cons_coe, ← Multiset.singleton_add,
      add_assoc] at h
    rw [List.zipIdx_cons, List.foldl_cons, List.flatten_cons, ← Multiset.coe_add, ← add_assoc]
    refine ih (first + 1) (fun g' hg' => hchild g' (List.mem_cons_of_mem _ hg')) ?_
    exact hchild g List.mem_cons_self _ _ _ _ h (Nat.lt_succ_self layer) rfl

/-- A balanced split of a note that covers its cost is sound and mints exactly its targets. -/
theorem buildSplit_sound (hfit : SplitFits targets fee)
    (h : Sound wallet fee layers ({source} + pool) minted) (hsource : source.Before layer)
    (hcost : (subtreeCost targets fee).2 ≤ source.value) :
    Sound wallet fee (buildSplit source source.value targets fee layer layers) pool
      (minted + targets) := by
  induction hn : targets.length using Nat.strong_induction_on
    generalizing targets layers minted source pool layer with
  | _ n ih =>
    subst hn
    rcases Nat.lt_or_ge 1 (splitDepth targets.length) with hnode | hleaf
    · obtain ⟨hvalue, hlt⟩ := hfit.node_value hnode
      rw [buildSplit_node hnode, wrappingSum_of_lt (by omega), wrappingSub_wrappingSub (by omega)]
      set values := (splitGroups targets).map fun g => (subtreeCost g fee).2 with hvalues
      have hlen : values.length = groupCount targets.length := by
        rw [← length_splitGroups, List.length_map]
      have htx : WellFormed fee layer ⟨[source], values.map .intermediate ++
          leftoverOutput (source.value - fee - values.sum)⟩ :=
        wellFormed_fanOut hsource (by simpa [hlen] using (groupCount_spec hnode).2.1)
          (by rw [sum_map_intermediate]; omega)
      have hpush := Sound.addTransaction h htx
      simp only [List.filterMap_append, funding_map_intermediate, funding_leftoverOutput,
        List.append_nil, Multiset.coe_nil, add_zero] at hpush
      have hfeeders : (((splitGroups targets).zipIdx.map fun (g, o) =>
          childNote layer (layerLength layers layer) o fee g : List PrepInput) :
            Multiset PrepInput) + pool ≤ pool + txFeeders layer (layerLength layers layer)
          (values.map .intermediate ++ leftoverOutput (source.value - fee - values.sum)) := by
        rw [add_comm]
        refine add_le_add_right (le_trans (le_of_eq ?_)
          (txFeeders_map_intermediate layer (layerLength layers layer) values _)) _
        simp [hvalues, List.zipIdx_map, childNote, Function.comp_def]
      have hsound := foldl_buildSplit_sound (splitGroups targets) 0
        (fun g hg source' pool' layers' minted' hsound hbefore hsource' => ?_)
        (hpush.mono hfeeders)
      · rwa [splitGroups_flatten hnode] at hsound
      · rw [← hsource']
        exact ih g.length (length_of_mem_splitGroups hnode hg).2 (hfit.of_mem hnode hg) hsound
          hbefore hsource'.ge rfl
    · unfold SplitFits at hfit
      rw [subtreeCost_leaf hleaf] at hfit hcost
      simp only [Nat.mul_one] at hfit hcost
      rw [wrappingSum_of_lt (by omega), wrappingAdd_of_lt hfit] at hcost
      rw [buildSplit_leaf hleaf, wrappingSum_of_lt (by omega), wrappingSub_wrappingSub (by omega)]
      have htx : WellFormed fee layer ⟨[source], targets.map .funding ++
          leftoverOutput (source.value - fee - targets.sum)⟩ :=
        wellFormed_fanOut hsource (by simpa using le_fundingOutputsPerTx_of_splitDepth hleaf)
          (by rw [sum_map_funding]; omega)
      have hpush := Sound.addTransaction h htx
      have hsound := hpush.mono (Multiset.le_add_right pool _)
      simpa only [List.filterMap_append, funding_map_funding, funding_leftoverOutput,
        List.append_nil] using hsound

/-! ## The number of transactions -/

theorem length_flatten_addTransaction (layers : Layers) (layer : ℕ) (tx : PrepTransaction) :
    (addTransaction layers layer tx).flatten.length = layers.flatten.length + 1 := by
  have hpush := (flatten_push tx (lt_length_ensureLayer layers layer)).length_eq
  have hempty : (ensureLayer layers layer).flatten = layers.flatten := by simp [ensureLayer]
  rw [hempty] at hpush
  exact hpush

/-- A balanced split adds the transactions that its cost counts. -/
theorem length_flatten_buildSplit (source : PrepInput) (sourceValue : ℕ) (targets : List ℕ)
    (fee layer : ℕ) (layers : Layers) :
    (buildSplit source sourceValue targets fee layer layers).flatten.length =
      layers.flatten.length + (subtreeCost targets fee).1 := by
  induction hn : targets.length using Nat.strong_induction_on
    generalizing targets layers source sourceValue layer with
  | _ n ih =>
    subst hn
    rcases Nat.lt_or_ge 1 (splitDepth targets.length) with hnode | hleaf
    · have hfold : ∀ (groups : List (List ℕ)) (first : ℕ) (layers' : Layers) (transaction : ℕ),
          (∀ g ∈ groups, g ∈ splitGroups targets) →
          ((groups.zipIdx first).foldl
            (fun layers' (g, o) =>
              buildSplit (childNote layer transaction o fee g) (subtreeCost g fee).2 g fee
                (layer + 1) layers')
            layers').flatten.length =
            layers'.flatten.length + (groups.map fun g => (subtreeCost g fee).1).sum := by
        intro groups
        induction groups with
        | nil => simp
        | cons g rest ih' =>
          intro first layers' transaction hmem
          have hlt := (length_of_mem_splitGroups hnode (hmem g List.mem_cons_self)).2
          rw [List.zipIdx_cons, List.foldl_cons,
            ih' _ _ _ fun g' hg' => hmem g' (List.mem_cons_of_mem _ hg'),
            ih g.length hlt _ _ _ _ _ rfl, List.map_cons, List.sum_cons]
          omega
      rw [buildSplit_node hnode, hfold _ _ _ _ fun g hg => hg, length_flatten_addTransaction,
        subtreeCost_node_fst fee hnode]
      omega
    · rw [buildSplit_leaf hleaf, length_flatten_addTransaction, subtreeCost_leaf hleaf]

end VizorWallet.Migration
