import VizorWallet.Library.CutBatches
import VizorWallet.Migration.Preparation.Notes
import Mathlib.Tactic.Ring
import Mathlib.Tactic.Linarith

/-!
# The balanced split

One note is fanned out into many funding notes through a tree whose depth is logarithmic in their
number.  A fee is added once for each transaction of the tree; this is the only `u64` arithmetic
of the planner that can leave its range, and it wraps here as it does in a release build.
-/

namespace VizorWallet.Migration

/-- The most funding notes a split tree of a given depth produces. -/
def subtreeCapacity (depth : ℕ) : ℕ := fundingOutputsPerTx ^ depth

theorem subtreeCapacity_lt_succ (depth : ℕ) :
    subtreeCapacity depth < subtreeCapacity (depth + 1) :=
  Nat.pow_lt_pow_right (by decide) (Nat.lt_succ_self depth)

/-- Increase the depth until the capacity reaches `n`. -/
def splitDepthFrom (n depth : ℕ) : ℕ :=
  if subtreeCapacity depth < n then splitDepthFrom n (depth + 1) else depth
termination_by n - subtreeCapacity depth
decreasing_by
  have := subtreeCapacity_lt_succ depth
  omega

/-- The fewest split layers that produce `n` funding notes from one note. -/
def splitDepth (n : ℕ) : ℕ := if n = 0 then 0 else splitDepthFrom n 1

/-- Group sizes as even as possible, the larger ones first. -/
def evenGroupSizes (len g : ℕ) : List ℕ :=
  (List.range g).map fun i => len / g + if i < len % g then 1 else 0

/-- The number of child subtrees of an internal node. -/
def groupCount (len : ℕ) : ℕ :=
  (len + subtreeCapacity (splitDepth len - 1) - 1) / subtreeCapacity (splitDepth len - 1)

/-- The funding values of each child subtree. -/
def splitGroups (targets : List ℕ) : List (List ℕ) :=
  cutBatches targets (evenGroupSizes targets.length (groupCount targets.length))

theorem splitDepthFrom_spec (n depth : ℕ) :
    n ≤ subtreeCapacity (splitDepthFrom n depth) ∧
      (splitDepthFrom n depth = depth ∨
        subtreeCapacity (splitDepthFrom n depth - 1) < n ∧ depth < splitDepthFrom n depth) := by
  fun_induction splitDepthFrom n depth with
  | case1 depth hlt ih =>
    refine ⟨ih.1, .inr ?_⟩
    rcases ih.2 with heq | ⟨hcap, hdepth⟩
    · rw [heq]
      exact ⟨by simpa using hlt, by omega⟩
    · exact ⟨hcap, by omega⟩
  | case2 depth hge => exact ⟨by omega, .inl rfl⟩

/-- The depth of a split is the least whose capacity suffices. -/
theorem splitDepth_spec {n : ℕ} (h : 1 < splitDepth n) :
    n ≤ subtreeCapacity (splitDepth n) ∧ subtreeCapacity (splitDepth n - 1) < n := by
  unfold splitDepth at h ⊢
  split_ifs at h ⊢ with hn
  · omega
  · obtain ⟨hle, heq | hlt⟩ := splitDepthFrom_spec n 1
    · omega
    · exact ⟨hle, hlt.1⟩

theorem le_fundingOutputsPerTx_of_splitDepth {n : ℕ} (h : splitDepth n ≤ 1) :
    n ≤ fundingOutputsPerTx := by
  unfold splitDepth at h
  split_ifs at h with hn
  · omega
  · obtain ⟨hle, heq | hlt⟩ := splitDepthFrom_spec n 1
    · rw [heq] at hle
      simpa [subtreeCapacity] using hle
    · omega

theorem fundingOutputsPerTx_le_subtreeCapacity {depth : ℕ} (h : 1 ≤ depth) :
    fundingOutputsPerTx ≤ subtreeCapacity depth := by
  simpa [subtreeCapacity] using Nat.pow_le_pow_right (n := fundingOutputsPerTx) (by decide) h

/-- An internal node has at least two children, few enough for one transaction, and at least two
targets for each of them. -/
theorem groupCount_spec {n : ℕ} (h : 1 < splitDepth n) :
    2 ≤ groupCount n ∧ groupCount n ≤ fundingOutputsPerTx ∧ 2 * groupCount n ≤ n := by
  obtain ⟨hle, hlt⟩ := splitDepth_spec h
  obtain ⟨d, hd⟩ : ∃ d, splitDepth n = d + 2 := ⟨splitDepth n - 2, by omega⟩
  unfold groupCount
  rw [hd] at hle hlt ⊢
  have hc : fundingOutputsPerTx ≤ subtreeCapacity (d + 1) :=
    fundingOutputsPerTx_le_subtreeCapacity (by omega)
  have hcap : subtreeCapacity (d + 2) = fundingOutputsPerTx * subtreeCapacity (d + 1) := by
    simp [subtreeCapacity, pow_succ, mul_comm]
  rw [hcap] at hle
  simp only [show d + 2 - 1 = d + 1 from rfl] at hlt ⊢
  generalize subtreeCapacity (d + 1) = c at *
  have hf : fundingOutputsPerTx = 14 := rfl
  rw [hf] at hle hc ⊢
  have hmul := Nat.div_mul_le_self (n + c - 1) c
  refine ⟨?_, ?_, ?_⟩
  · exact (Nat.le_div_iff_mul_le (by omega)).2 (by omega)
  · exact Nat.lt_succ_iff.1 ((Nat.div_lt_iff_lt_mul (by omega)).2 (by omega))
  · by_contra hcon
    have hwide : (n + 1) * 14 ≤ (n + 1) * c := Nat.mul_le_mul_left _ hc
    have hmany : (n + 1) * c ≤ 2 * ((n + c - 1) / c) * c := Nat.mul_le_mul_right _ (by omega)
    rw [mul_assoc] at hmany
    omega

theorem sum_evenGroupSizes {len g : ℕ} (hg : 0 < g) : (evenGroupSizes len g).sum = len := by
  have hextra : ∀ m, ((List.range m).map fun i => if i < len % g then 1 else 0).sum =
      min m (len % g) := by
    intro m
    induction m with
    | zero => simp
    | succ m ih =>
      rw [List.range_succ, List.map_append, List.sum_append, ih]
      simp only [List.map_cons, List.map_nil, List.sum_cons, List.sum_nil]
      split_ifs <;> omega
  have hmod := Nat.mod_lt len hg
  rw [evenGroupSizes, List.sum_map_add, hextra g, min_eq_right hmod.le]
  simpa using Nat.div_add_mod len g

theorem splitGroups_flatten {targets : List ℕ} (h : 1 < splitDepth targets.length) :
    (splitGroups targets).flatten = targets :=
  flatten_cutBatches _ _ (sum_evenGroupSizes (by have := (groupCount_spec h).1; omega))

theorem length_splitGroups (targets : List ℕ) :
    (splitGroups targets).length = groupCount targets.length := by
  have hlen : ∀ (pool : List ℕ) sizes, (cutBatches pool sizes).length = sizes.length := by
    intro pool sizes
    induction sizes generalizing pool with
    | nil => rfl
    | cons size sizes ih => simp [cutBatches, ih]
  simp [splitGroups, hlen, evenGroupSizes]

/-- Every child of an internal node has at least two targets and fewer than its parent. -/
theorem length_of_mem_splitGroups {targets group : List ℕ} (h : 1 < splitDepth targets.length)
    (hmem : group ∈ splitGroups targets) : 2 ≤ group.length ∧ group.length < targets.length := by
  obtain ⟨htwo, -, hwide⟩ := groupCount_spec h
  have hsizes := map_length_cutBatches targets (evenGroupSizes targets.length
    (groupCount targets.length)) (by rw [sum_evenGroupSizes (by omega)])
  have hmem' : group.length ∈ evenGroupSizes targets.length (groupCount targets.length) := by
    rw [← hsizes]
    exact List.mem_map_of_mem hmem
  obtain ⟨i, hi, hlen⟩ := List.mem_map.1 hmem'
  have hbase : 2 ≤ targets.length / groupCount targets.length :=
    (Nat.le_div_iff_mul_le (by omega)).2 hwide
  have hhalf : targets.length / groupCount targets.length ≤ targets.length / 2 :=
    Nat.div_le_div_left htwo (by omega)
  have hfour : 2 * groupCount targets.length ≤ targets.length := hwide
  rw [← hlen]
  split_ifs <;> omega

/-- The transaction count and the value that one note must carry to produce exactly `targets`. -/
def subtreeCost (targets : List ℕ) (fee : ℕ) : ℕ × ℕ :=
  if splitDepth targets.length ≤ 1 then (1, wrappingAdd (wrappingSum targets) fee)
  else
    (splitGroups targets).attach.foldl
      (fun (txs, value) group =>
        (txs + (subtreeCost group.1 fee).1, wrappingAdd value (subtreeCost group.1 fee).2))
      (1, fee)
termination_by targets.length
decreasing_by
  all_goals
    obtain ⟨g, hg⟩ := group
    exact (length_of_mem_splitGroups (by omega) hg).2

/-- The transaction `layers.len() <= layer` loop: empty layers up to `layer`. -/
def ensureLayer (layers : Layers) (layer : ℕ) : Layers :=
  layers ++ List.replicate (layer + 1 - layers.length) []

/-- Push a transaction to a layer, which is created when missing. -/
def addTransaction (layers : Layers) (layer : ℕ) (tx : PrepTransaction) : Layers :=
  (ensureLayer layers layer).modify layer (· ++ [tx])

/-- The number of transactions a layer holds. -/
def layerLength (layers : Layers) (layer : ℕ) : ℕ := (layers[layer]?.getD []).length

/-- A positive leftover is an intermediate output. -/
def leftoverOutput (leftover : ℕ) : List PrepOutput :=
  if 0 < leftover then [.intermediate leftover] else []

/-- Split `source` into the funding notes `targets`, from `layer` downwards. -/
def buildSplit (source : PrepInput) (sourceValue : ℕ) (targets : List ℕ) (fee layer : ℕ)
    (layers : Layers) : Layers :=
  if splitDepth targets.length ≤ 1 then
    addTransaction layers layer
      ⟨[source], targets.map .funding ++
        leftoverOutput (wrappingSub (wrappingSub sourceValue fee) (wrappingSum targets))⟩
  else
    let childValues := (splitGroups targets).map fun group => (subtreeCost group fee).2
    (splitGroups targets).attach.zipIdx.foldl
      (fun layers' (group, output) =>
        buildSplit
          (.prior layer (layerLength layers layer) output (subtreeCost group.1 fee).2)
          (subtreeCost group.1 fee).2 group.1 fee (layer + 1) layers')
      (addTransaction layers layer
        ⟨[source], childValues.map .intermediate ++
          leftoverOutput (wrappingSub (wrappingSub sourceValue fee) (wrappingSum childValues))⟩)
termination_by targets.length
decreasing_by
  all_goals
    obtain ⟨g, hg⟩ := group
    exact (length_of_mem_splitGroups (by omega) hg).2

end VizorWallet.Migration
