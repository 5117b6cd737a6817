import VizorWallet.Library.CutBatches
import VizorWallet.Library.UnstableSort
import VizorWallet.Migration.Preparation.Notes
import Mathlib.Tactic.Abel

/-!
# Consolidation

`consolidate` combines the notes of a pool into feeders, fifteen at a time, and returns the notes
whose batch could not pay a fee.
-/

namespace VizorWallet.Migration

/-- The number of notes the next consolidation batch takes. -/
def consolidationTake (n : ℕ) : ℕ :=
  if n ≤ consolidationInputsPerTx then n
  else if n - consolidationInputsPerTx = 1 then consolidationInputsPerTx - 1
  else consolidationInputsPerTx

theorem consolidationTake_pos {n : ℕ} (hn : 0 < n) : 0 < consolidationTake n := by
  unfold consolidationTake consolidationInputsPerTx prepTxActions
  split_ifs <;> omega

theorem consolidationTake_le (n : ℕ) : consolidationTake n ≤ n := by
  unfold consolidationTake consolidationInputsPerTx prepTxActions
  split_ifs <;> omega

/-- Batches of at most `consolidationInputsPerTx` notes, never of a single one. -/
def consolidationBatchSizes (n : ℕ) : List ℕ :=
  if n = 0 then []
  else consolidationTake n :: consolidationBatchSizes (n - consolidationTake n)
termination_by n
decreasing_by
  have := consolidationTake_pos (n := n) (by omega)
  omega

/-- The transactions of a layer under construction, the notes they leave to the next layer, and
the notes that could not pay a fee. -/
structure LayerBuild where
  txs : List PrepTransaction := []
  next : List PrepInput := []
  leftover : List PrepInput := []

/-- Append a transaction that combines a batch into a feeder note. -/
def LayerBuild.combine (layer fee : ℕ) (build : LayerBuild) (batch : List PrepInput) :
    LayerBuild :=
  let feeder := (batch.map PrepInput.value).sum - fee
  { build with
    txs := build.txs ++ [⟨batch, [.intermediate feeder]⟩]
    next := build.next ++ [.prior layer build.txs.length 0 feeder] }

/-- Leave a batch unspent. -/
def LayerBuild.leave (build : LayerBuild) (batch : List PrepInput) : LayerBuild :=
  { build with leftover := build.leftover ++ batch }

/-- Combine one batch when it is worth more than the fee. -/
def LayerBuild.addBatch (layer fee : ℕ) (build : LayerBuild) (batch : List PrepInput) :
    LayerBuild :=
  if (batch.map PrepInput.value).sum ≤ fee then build.leave batch
  else build.combine layer fee batch

/-- Append one consolidation transaction per batch of the pool. -/
def consolidate (S : UnstableSort PrepInput.value) (pool : List PrepInput) (layer fee : ℕ)
    (build : LayerBuild) : LayerBuild :=
  if pool.length < 2 then build.leave pool
  else
    (cutBatches (S.sort pool) (consolidationBatchSizes pool.length)).foldl
      (LayerBuild.addBatch layer fee) build

/-! ## What consolidation keeps -/

theorem sum_consolidationBatchSizes (n : ℕ) : (consolidationBatchSizes n).sum = n := by
  fun_induction consolidationBatchSizes n with
  | case1 => simp
  | case2 n hn ih =>
    rw [List.sum_cons, ih]
    have := consolidationTake_le n
    omega

theorem mem_consolidationBatchSizes {n size : ℕ} (hn : n ≠ 1)
    (h : size ∈ consolidationBatchSizes n) : 2 ≤ size ∧ size ≤ consolidationInputsPerTx := by
  fun_induction consolidationBatchSizes n with
  | case1 => simp at h
  | case2 n hpos ih =>
    have htake : 2 ≤ consolidationTake n ∧ consolidationTake n ≤ consolidationInputsPerTx ∧
        n - consolidationTake n ≠ 1 := by
      unfold consolidationTake consolidationInputsPerTx prepTxActions
      split_ifs <;> omega
    rcases List.mem_cons.1 h with rfl | hmem
    · exact ⟨htake.1, htake.2.1⟩
    · exact ih htake.2.2 hmem

section Induction

variable (S : UnstableSort PrepInput.value) (layer fee : ℕ) (build : LayerBuild)
  {motive : LayerBuild → Multiset PrepInput → Prop}

theorem foldl_addBatch_induction {batches : List (List PrepInput)}
    (hsize : ∀ batch ∈ batches, 2 ≤ batch.length ∧ batch.length ≤ consolidationInputsPerTx)
    (hstart : motive build batches.flatten)
    (hleave : ∀ (build : LayerBuild) (batch : List PrepInput) (rest : Multiset PrepInput),
      motive build (batch + rest) → motive (build.leave batch) rest)
    (hcombine : ∀ (build : LayerBuild) (batch : List PrepInput) (rest : Multiset PrepInput),
      2 ≤ batch.length → batch.length ≤ consolidationInputsPerTx →
      fee < (batch.map PrepInput.value).sum → motive build (batch + rest) →
      motive (build.combine layer fee batch) rest) :
    motive (batches.foldl (LayerBuild.addBatch layer fee) build) 0 := by
  induction batches generalizing build with
  | nil => simpa using hstart
  | cons batch rest ih =>
    obtain ⟨htwo, hmax⟩ := hsize batch List.mem_cons_self
    rw [List.flatten_cons, ← Multiset.coe_add] at hstart
    rw [List.foldl_cons]
    refine ih _ (fun b hb => hsize b (List.mem_cons_of_mem _ hb)) ?_
    unfold LayerBuild.addBatch
    split_ifs with hfee
    · exact hleave _ _ _ hstart
    · exact hcombine _ _ _ htwo hmax (by omega) hstart

/-- To show something of the result of `consolidate`, follow the pool as its batches are combined
or left. -/
theorem consolidate_induction (pool : List PrepInput) (hstart : motive build pool)
    (hleave : ∀ (build : LayerBuild) (batch : List PrepInput) (rest : Multiset PrepInput),
      motive build (batch + rest) → motive (build.leave batch) rest)
    (hcombine : ∀ (build : LayerBuild) (batch : List PrepInput) (rest : Multiset PrepInput),
      2 ≤ batch.length → batch.length ≤ consolidationInputsPerTx →
      fee < (batch.map PrepInput.value).sum → motive build (batch + rest) →
      motive (build.combine layer fee batch) rest) :
    motive (consolidate S pool layer fee build) 0 := by
  unfold consolidate
  split_ifs with hlen
  · exact hleave build pool 0 (by simpa using hstart)
  · have hsum := sum_consolidationBatchSizes pool.length
    refine foldl_addBatch_induction layer fee build ?_ ?_ hleave hcombine
    · intro batch hmem
      have hlength := map_length_cutBatches (S.sort pool) (consolidationBatchSizes pool.length)
        (by simp [hsum])
      exact mem_consolidationBatchSizes (by omega) (hlength ▸ List.mem_map_of_mem hmem)
    · rw [flatten_cutBatches _ _ (by simp [hsum]), S.coe_sort]
      exact hstart

end Induction

variable (S : UnstableSort PrepInput.value) (pool : List PrepInput) (layer fee : ℕ)

/-- Every note of the pool is spent or left. -/
theorem consolidate_inputs (build : LayerBuild) :
    ((consolidate S pool layer fee build).txs.flatMap PrepTransaction.inputs : Multiset PrepInput)
        + (consolidate S pool layer fee build).leftover =
      (build.txs.flatMap PrepTransaction.inputs : Multiset PrepInput) + build.leftover + pool := by
  have hfinal := consolidate_induction S layer fee build pool
    (motive := fun b rest => (b.txs.flatMap PrepTransaction.inputs : Multiset PrepInput)
      + b.leftover + rest =
        (build.txs.flatMap PrepTransaction.inputs : Multiset PrepInput) + build.leftover + pool)
    rfl ?_ ?_
  · simpa using hfinal
  · intro b batch rest h
    rw [← h, LayerBuild.leave, ← Multiset.coe_add]
    abel
  · intro b batch rest _ _ _ h
    rw [← h]
    simp only [LayerBuild.combine, List.flatMap_append, List.flatMap_cons, List.flatMap_nil,
      List.append_nil, ← Multiset.coe_add]
    abel

/-- Every combined batch has at least two notes. -/
theorem consolidate_length (build : LayerBuild) :
    (consolidate S pool layer fee build).leftover.length +
        2 * (consolidate S pool layer fee build).txs.length ≤
      build.leftover.length + 2 * build.txs.length + pool.length := by
  have hfinal := consolidate_induction S layer fee build pool
    (motive := fun b rest => b.leftover.length + 2 * b.txs.length + rest.card ≤
      build.leftover.length + 2 * build.txs.length + pool.length) (by simp) ?_ ?_
  · simpa using hfinal
  · intro b batch rest h
    simp only [LayerBuild.leave, List.length_append, Multiset.card_add, Multiset.coe_card] at h ⊢
    omega
  · intro b batch rest htwo _ _ h
    simp only [LayerBuild.combine, List.length_append, List.length_singleton, Multiset.card_add,
      Multiset.coe_card] at h ⊢
    omega

/-- Each combined batch leaves one note to the next layer. -/
theorem consolidate_next (build : LayerBuild) :
    (consolidate S pool layer fee build).next.length + build.txs.length =
      build.next.length + (consolidate S pool layer fee build).txs.length := by
  refine consolidate_induction S layer fee build pool
    (motive := fun b _ => b.next.length + build.txs.length = build.next.length + b.txs.length)
    rfl (fun _ _ _ h => h) ?_
  intro b batch rest _ _ _ h
  simp only [LayerBuild.combine, List.length_append, List.length_singleton]
  omega

end VizorWallet.Migration
