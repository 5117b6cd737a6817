import VizorWallet.Library.Outcome
import VizorWallet.Migration.Preparation.Soundness

/-!
# The residual of a plan

What a plan leaves in the source pool is at most one note worth a fee: the fallback spends
everything through one note, and the greedy merges what its layers leave until no batch can pay a
fee.

## Main definitions

* `greedyNext`, `mergeNext`, `consolidateNext` — one pass of each loop of the planner.

## Main results

* `buildSplit_exhausts` — a split leaves at most one note, also when its cost wraps.
* `map_value_residual` — the residual notes are the feeders that nothing spends.
* `planPreparation_residual` — at most one residual note is worth a fee, and the loops end.
-/

namespace VizorWallet.Migration

variable {S : UnstableSort PrepInput.value} {fee layer : ℕ} {layers : Layers}
  {pool : Multiset PrepInput} {source : PrepInput} {targets : List ℕ}

/-! ## What a split leaves -/

theorem exhausts_addTransaction {tx : PrepTransaction}
    (h : (book 0 layers).Exhausts (tx.inputs + pool)) :
    (book 0 (addTransaction layers layer tx)).Exhausts
      (pool + txFeeders layer (layerLength layers layer) tx.outputs) := by
  have hpush := book_pushTransaction 0 tx (lt_length_ensureLayer layers layer)
  rw [layerLength_ensureLayer] at hpush
  have hempty := book_append_empty 0 layers (layer + 1 - layers.length)
  change (book 0 (pushTransaction (ensureLayer layers layer) layer tx)).Exhausts _
  rw [hpush, ensureLayer, hempty]
  exact h.post _

/-- The feeders of a node: its children and its leftover. -/
theorem txFeeders_node (layer transaction leftover : ℕ) (values : List ℕ) :
    txFeeders layer transaction (values.map .intermediate ++ leftoverOutput leftover) =
      (values.zipIdx.map fun (v, o) => PrepInput.prior layer transaction o v) ++
        leftoverInput layer transaction values.length leftover := by
  have hfeeder : (fun x : PrepOutput × ℕ => x.1.feeder? layer transaction x.2) ∘
      Prod.map PrepOutput.intermediate id =
        some ∘ fun x => PrepInput.prior layer transaction x.2 x.1 := rfl
  simp only [txFeeders, List.zipIdx_append, List.filterMap_append, List.zipIdx_map,
    List.filterMap_map, hfeeder, List.filterMap_eq_map, List.length_map, Nat.zero_add,
    leftoverOutput, leftoverInput]
  split_ifs <;> rfl

theorem card_leftoverInput (layer transaction output leftover : ℕ) :
    (leftoverInput layer transaction output leftover).length ≤ 1 := by
  unfold leftoverInput
  split_ifs <;> simp

/-- The cost of a node: the fee and the costs of its children. -/
theorem subtreeCost_node_snd (hfee : fee < u64Size) (h : 1 < splitDepth targets.length) :
    (subtreeCost targets fee).2 =
      wrappingAdd (wrappingSum ((splitGroups targets).map fun g => (subtreeCost g fee).2)) fee := by
  have hfold : ∀ (groups : List (List ℕ)) (start : ℕ × ℕ), (groups.foldl
      (fun total g => (total.1 + (subtreeCost g fee).1, wrappingAdd total.2 (subtreeCost g fee).2))
      start).2 = (groups.map fun g => (subtreeCost g fee).2).foldl wrappingAdd start.2 := by
    intro groups
    induction groups with
    | nil => exact fun _ => rfl
    | cons g rest ih => exact fun start => ih _
  rw [subtreeCost_node h, hfold, foldl_wrappingAdd hfee, wrappingAdd_comm]

theorem leftover_eq_zero {total : ℕ} (hfee : fee < u64Size) (htotal : total < u64Size) :
    wrappingSub (wrappingSub (wrappingAdd total fee) fee) total = 0 := by
  rw [wrappingSub_wrappingAdd htotal hfee, wrappingSub_of_le le_rfl, Nat.sub_self]

/-- A split leaves at most one note, and none when its source carries just the cost. -/
theorem buildSplit_exhausts (hfee : fee < u64Size) (sourceValue : ℕ)
    (h : (book 0 layers).Exhausts ({source} + pool)) :
    ∃ rest : Multiset PrepInput, rest.card ≤ 1 ∧
      (sourceValue = (subtreeCost targets fee).2 → rest = 0) ∧
      (book 0 (buildSplit source sourceValue targets fee layer layers)).Exhausts (pool + rest) := by
  induction hn : targets.length using Nat.strong_induction_on
    generalizing targets layers source sourceValue pool layer with
  | _ n ih =>
    subst hn
    rcases Nat.lt_or_ge 1 (splitDepth targets.length) with hnode | hleaf
    · rw [buildSplit_node hnode]
      set values := (splitGroups targets).map fun g => (subtreeCost g fee).2 with hvalues
      set leftover := wrappingSub (wrappingSub sourceValue fee) (wrappingSum values)
      set transaction := layerLength layers layer
      have hroot := @exhausts_addTransaction layer layers pool
        ⟨[source], values.map .intermediate ++ leftoverOutput leftover⟩ h
      rw [txFeeders_node, ← Multiset.coe_add] at hroot
      refine ⟨leftoverInput layer transaction values.length leftover,
        card_leftoverInput _ _ _ _, fun hcost => ?_, ?_⟩
      · have hzero : leftover = 0 := by
          rw [subtreeCost_node_snd hfee hnode, ← hvalues] at hcost
          simp only [leftover, hcost, leftover_eq_zero hfee (wrappingSum_lt values)]
        rw [hzero]
        rfl
      · -- the children are split one after the other
        have hchildren : ∀ (groups : List (List ℕ)) (first : ℕ) (layers : Layers),
            (∀ g ∈ groups, g ∈ splitGroups targets) → ∀ pool : Multiset PrepInput,
            (book 0 layers).Exhausts (((groups.zipIdx first).map fun entry =>
              childNote layer transaction entry.2 fee entry.1 : List PrepInput) + pool) →
            (book 0 ((groups.zipIdx first).foldl (fun layers' entry =>
              buildSplit (childNote layer transaction entry.2 fee entry.1)
                (subtreeCost entry.1 fee).2 entry.1 fee (layer + 1) layers')
              layers)).Exhausts pool := by
          intro groups
          induction groups with
          | nil => exact fun _ _ _ pool hnil => by simpa using hnil
          | cons g rest ihrest =>
            intro first layers hmem pool hcons
            rw [List.zipIdx_cons, List.map_cons, ← Multiset.cons_coe, ← Multiset.singleton_add,
              add_assoc] at hcons
            obtain ⟨left, -, hnone, hleft⟩ := ih g.length
              (length_of_mem_splitGroups hnode (hmem g List.mem_cons_self)).2 _ hcons rfl
            rw [hnone rfl, add_zero] at hleft
            exact ihrest (first + 1) _ (fun g' hg' => hmem g' (List.mem_cons_of_mem _ hg')) pool
              hleft
        refine hchildren (splitGroups targets) 0 _ (fun _ hg => hg) _ (hroot.mono (le_of_eq ?_))
        have hnotes : (values.zipIdx.map fun entry =>
            PrepInput.prior layer transaction entry.2 entry.1) =
            (splitGroups targets).zipIdx.map fun entry =>
              childNote layer transaction entry.2 fee entry.1 := by
          simp [hvalues, List.zipIdx_map, childNote, Function.comp_def]
        rw [hnotes, add_left_comm]
    · rw [buildSplit_leaf hleaf]
      set leftover := wrappingSub (wrappingSub sourceValue fee) (wrappingSum targets)
      have hroot := @exhausts_addTransaction layer layers pool
        ⟨[source], targets.map .funding ++ leftoverOutput leftover⟩ h
      rw [txFeeders_fanOut] at hroot
      refine ⟨leftoverInput layer (layerLength layers layer) targets.length leftover,
        card_leftoverInput _ _ _ _, fun hcost => ?_, hroot⟩
      have hzero : leftover = 0 := by
        rw [subtreeCost_leaf hleaf] at hcost
        simp only [leftover, hcost, leftover_eq_zero hfee (wrappingSum_lt targets)]
      rw [hzero]
      rfl

/-! ## What a consolidation leaves -/

theorem exhausts_push_last {txs : List PrepTransaction} {tx : PrepTransaction}
    (h : (book 0 (layers ++ [txs])).Exhausts (tx.inputs + pool)) :
    (book 0 (layers ++ [txs ++ [tx]])).Exhausts
      (pool + txFeeders layers.length txs.length tx.outputs) := by
  have hlast : layers.length < (layers ++ [txs]).length := by simp
  have hpush := book_pushTransaction 0 tx hlast
  rw [pushTransaction_last, layerLength_last] at hpush
  rw [hpush]
  exact h.post _

theorem consolidate_exhausts {notes : List PrepInput} (h : (book 0 layers).Exhausts notes) :
    let build := consolidate S notes layers.length fee {}
    (book 0 (layers ++ [build.txs])).Exhausts build.left := by
  have hstart : (book 0 (layers ++ [[]])).Exhausts (notes + ({} : LayerBuild).left) := by
    have hempty := book_append_empty 0 layers 1
    rw [List.replicate_one] at hempty
    rw [hempty]
    exact h.mono (Multiset.le_add_right _ _)
  have hfinal := consolidate_induction S layers.length fee {} notes
    (motive := fun build rest => (book 0 (layers ++ [build.txs])).Exhausts (rest + build.left))
    hstart ?_ ?_
  · simpa using hfinal
  · intro build batch rest hleave
    refine hleave.mono (le_of_eq ?_)
    simp only [LayerBuild.left, LayerBuild.leave, ← Multiset.coe_add]
    abel
  · intro build batch rest _ _ _ hcombine
    rw [add_assoc] at hcombine
    refine (@exhausts_push_last layers _ build.txs ⟨batch, [.intermediate _]⟩ hcombine).mono
      (le_of_eq ?_)
    simp only [LayerBuild.left, LayerBuild.combine, txFeeders, PrepOutput.feeder?,
      ← Multiset.coe_add]
    simp only [List.zipIdx_singleton, List.filterMap_cons, List.filterMap_nil]
    abel

theorem consolidateAll_exhausts {current rest : List PrepInput} {final : Layers}
    (h : (book 0 layers).Exhausts current)
    (hloop : consolidateAll S fee current layers = .ok (rest, final)) :
    (book 0 final).Exhausts rest ∧ rest.length ≤ 1 := by
  fun_induction consolidateAll S fee current layers with
  | case1 current layers hlength =>
    obtain ⟨rfl, rfl⟩ := Prod.mk.inj (Except.ok.inj hloop)
    exact ⟨h, hlength⟩
  | case2 => cases hloop
  | case3 current layers =>
    rename_i ih
    exact ih (consolidate_exhausts h) hloop

/-- Feeders that nothing spends are in the pool. -/
theorem unconsumedFeeders_le (h : (book 0 layers).Exhausts pool) :
    (unconsumedFeeders layers : Multiset PrepInput) ≤ pool := by
  refine h.le_pool ?_ fun note hnote hspent => ?_
  · simp only [book, zero_add]
    exact Multiset.coe_le.2 List.filter_sublist.subperm
  · exact (mem_unconsumedFeeders.1 hnote).2 (List.mem_map_of_mem hspent)

/-! ## Labels -/

/-- Every output so far has a property. -/
def OutputsAre (P : PrepOutput → Prop) (layers : Layers) : Prop :=
  ∀ tx ∈ layers.flatten, ∀ out ∈ tx.outputs, P out

variable {P : PrepOutput → Prop}

theorem OutputsAre.nil : OutputsAre P [] :=
  fun _ h => nomatch h

theorem OutputsAre.outputAt {l t o : ℕ} {out : PrepOutput} (h : OutputsAre P layers)
    (hout : outputAt layers l t o = some out) : P out := by
  obtain ⟨tx, htx, hmem⟩ := Option.bind_eq_some_iff.1 hout
  cases htxs : layers[l]? with
  | none =>
    rw [htxs] at htx
    cases htx
  | some txs =>
    rw [htxs] at htx
    exact h tx (List.mem_flatten.2 ⟨txs, List.mem_of_getElem? htxs, List.mem_of_getElem? htx⟩) out
      (List.mem_of_getElem? hmem)

theorem OutputsAre.concat {txs : List PrepTransaction} (h : OutputsAre P layers)
    (htxs : ∀ tx ∈ txs, ∀ out ∈ tx.outputs, P out) : OutputsAre P (layers ++ [txs]) := by
  intro tx htx
  rw [List.flatten_append, List.mem_append, List.flatten_singleton] at htx
  exact htx.elim (h tx) (htxs tx)

theorem OutputsAre.addTransaction {tx : PrepTransaction} (h : OutputsAre P layers)
    (htx : ∀ out ∈ tx.outputs, P out) (layer : ℕ) :
    OutputsAre P (addTransaction layers layer tx) := by
  intro other hother
  have hempty : (ensureLayer layers layer).flatten = layers.flatten := by simp [ensureLayer]
  obtain rfl | hold := List.mem_cons.1
    ((flatten_push tx (lt_length_ensureLayer layers layer)).mem_iff.1 hother)
  · exact htx
  · exact h other (hempty ▸ hold)

theorem forall_mem_leftoverOutput (hintermediate : ∀ v, 0 < v → P (.intermediate v))
    (leftover : ℕ) : ∀ out ∈ leftoverOutput leftover, P out := by
  unfold leftoverOutput
  split_ifs with hpos
  · exact List.forall_mem_singleton.2 (hintermediate leftover hpos)
  · exact nofun

theorem consolidate_outputs (hintermediate : ∀ v, 0 < v → P (.intermediate v))
    (notes : List PrepInput) {build : LayerBuild}
    (h : ∀ tx ∈ build.txs, ∀ out ∈ tx.outputs, P out) :
    ∀ tx ∈ (consolidate S notes layer fee build).txs, ∀ out ∈ tx.outputs, P out := by
  refine consolidate_induction S layer fee build notes
    (motive := fun build _ => ∀ tx ∈ build.txs, ∀ out ∈ tx.outputs, P out) h (fun _ _ _ h => h) ?_
  intro build batch rest _ _ hfee h
  refine List.forall_mem_append.2 ⟨h, List.forall_mem_singleton.2 (List.forall_mem_singleton.2 ?_)⟩
  exact hintermediate _ (by omega)

theorem passTwo_outputs (hfunding : ∀ v, P (.funding v))
    (hintermediate : ∀ v, 0 < v → P (.intermediate v)) (pass : PassOne) :
    ∀ tx ∈ (passTwo S fee layer pass).txs, ∀ out ∈ tx.outputs, P out := by
  refine consolidate_outputs hintermediate _ ?_
  have hfold : ∀ (assignments : List Assignment) (build : LayerBuild),
      (∀ tx ∈ build.txs, ∀ out ∈ tx.outputs, P out) →
      ∀ tx ∈ (assignments.foldl (LayerBuild.mint layer) build).txs, ∀ out ∈ tx.outputs, P out := by
    intro assignments
    induction assignments with
    | nil => exact fun _ h => h
    | cons a rest ih =>
      refine fun build h => ih _ (List.forall_mem_append.2 ⟨h, List.forall_mem_singleton.2 ?_⟩)
      refine List.forall_mem_append.2
        ⟨fun out hout => ?_, forall_mem_leftoverOutput hintermediate _⟩
      obtain ⟨v, -, rfl⟩ := List.mem_map.1 hout
      exact hfunding v
  exact hfold pass.assignments {} nofun

theorem greedyLoop_outputs (hfunding : ∀ v, P (.funding v))
    (hintermediate : ∀ v, 0 < v → P (.intermediate v)) {remaining : List ℕ}
    {current : List PrepInput} {final : Layers} (h : OutputsAre P layers)
    (hloop : greedyLoop S fee remaining current layers = .ok final) : OutputsAre P final := by
  fun_induction greedyLoop S fee remaining current layers with
  | case1 =>
    obtain rfl := Except.ok.inj hloop
    exact h
  | case2 => cases hloop
  | case3 => cases hloop
  | case4 =>
    rename_i ih
    exact ih (h.concat (passTwo_outputs hfunding hintermediate _)) hloop

theorem mergeResidual_outputs (hintermediate : ∀ v, 0 < v → P (.intermediate v))
    (h : OutputsAre P layers) : OutputsAre P (mergeResidual S fee layers) := by
  fun_induction mergeResidual S fee layers with
  | case1 => exact h
  | case2 => exact h
  | case3 =>
    rename_i ih
    exact ih (h.concat (consolidate_outputs hintermediate _ fun _ h => by cases h))

theorem consolidateAll_outputs (hintermediate : ∀ v, 0 < v → P (.intermediate v))
    {current rest : List PrepInput} {final : Layers} (h : OutputsAre P layers)
    (hloop : consolidateAll S fee current layers = .ok (rest, final)) : OutputsAre P final := by
  fun_induction consolidateAll S fee current layers with
  | case1 =>
    obtain ⟨rfl, rfl⟩ := Prod.mk.inj (Except.ok.inj hloop)
    exact h
  | case2 => cases hloop
  | case3 =>
    rename_i ih
    exact ih (h.concat (consolidate_outputs hintermediate _ fun _ h => by cases h)) hloop

theorem buildSplit_outputs (hfunding : ∀ v, P (.funding v))
    (hintermediate : ∀ v, P (.intermediate v)) (sourceValue : ℕ) (h : OutputsAre P layers) :
    OutputsAre P (buildSplit source sourceValue targets fee layer layers) := by
  have hleftover := @forall_mem_leftoverOutput P fun v _ => hintermediate v
  induction hn : targets.length using Nat.strong_induction_on
    generalizing targets layers source sourceValue layer with
  | _ n ih =>
    subst hn
    rcases Nat.lt_or_ge 1 (splitDepth targets.length) with hnode | hleaf
    · rw [buildSplit_node hnode]
      refine List.foldlRecOn _ _ (h.addTransaction ?_ layer) fun layers' hlayers' pair hpair => ?_
      · refine List.forall_mem_append.2 ⟨fun out hout => ?_, hleftover _⟩
        obtain ⟨v, -, rfl⟩ := List.mem_map.1 hout
        exact hintermediate v
      · have hlt := (length_of_mem_splitGroups hnode (List.fst_mem_of_mem_zipIdx hpair)).2
        exact ih _ hlt _ hlayers' rfl
    · rw [buildSplit_leaf hleaf]
      refine h.addTransaction (List.forall_mem_append.2 ⟨fun out hout => ?_, hleftover _⟩) layer
      obtain ⟨v, -, rfl⟩ := List.mem_map.1 hout
      exact hfunding v

/-- The change of a transaction after relabelling: its feeders that nothing spends. -/
theorem change_relabelTx {spent : List (ℕ × ℕ × ℕ)} {transaction : ℕ} {tx : PrepTransaction}
    (h : ∀ out ∈ tx.outputs, out.change? = none) :
    (relabelTx spent layer transaction tx).outputs.filterMap PrepOutput.change? =
      ((txFeeders layer transaction tx.outputs).filter fun note =>
        note.coordinates?.any fun coordinates => coordinates ∉ spent).map PrepInput.value := by
  rw [relabelTx, List.mapIdx_eq_zipIdx_map, List.filterMap_map, txFeeders, List.filter_filterMap,
    List.map_filterMap]
  refine List.filterMap_congr ?_
  rintro ⟨out, output⟩ hout
  have hnone := h out (List.fst_mem_of_mem_zipIdx hout)
  cases out with
  | funding v => rfl
  | change v => cases hnone
  | intermediate v =>
    simp only [Function.comp_apply, relabelOutput, PrepOutput.feeder?, Option.filter_some,
      PrepInput.coordinates?, Option.any_some, decide_eq_true_eq]
    split_ifs <;> rfl

/-- The residual notes of relabelled layers are the feeders that nothing spends. -/
theorem map_value_residual (h : OutputsAre (fun out => out.change? = none) layers) :
    ((relabel layers).flatten.flatMap PrepTransaction.outputs).filterMap PrepOutput.change? =
      (unconsumedFeeders layers).map PrepInput.value := by
  have hrelabel : (relabel layers).flatten = layers.zipIdx.flatMap fun x =>
      x.1.zipIdx.map fun y => relabelTx (spentOutputs layers) x.2 y.2 y.1 := by
    simp only [relabel, List.mapIdx_eq_zipIdx_map, List.flatMap_def, relabelTx]
  simp only [hrelabel, unconsumedFeeders, feeders, feedersFrom, layerFeeders, List.flatMap_assoc,
    List.flatMap_map, List.filterMap_flatMap, List.filter_flatMap, List.map_flatMap]
  refine List.flatMap_congr fun x hx => List.flatMap_congr fun y hy => change_relabelTx ?_
  exact h y.1 (List.mem_flatten.2
    ⟨x.1, List.fst_mem_of_mem_zipIdx hx, List.fst_mem_of_mem_zipIdx hy⟩)

/-! ## One residual note -/

theorem addBatch_txs_subset (build : LayerBuild) (batch : List PrepInput) :
    build.txs ⊆ (build.addBatch layer fee batch).txs := by
  unfold LayerBuild.addBatch
  split_ifs
  · exact List.Subset.refl _
  · exact List.subset_append_left _ _

/-- When nothing is combined, no batch pays a fee. -/
theorem sum_le_of_foldl_addBatch {batches : List (List PrepInput)} {build : LayerBuild}
    (h : (batches.foldl (LayerBuild.addBatch layer fee) build).txs = []) :
    build.txs = [] ∧ ∀ batch ∈ batches, (batch.map PrepInput.value).sum ≤ fee := by
  induction batches generalizing build with
  | nil => exact ⟨h, nofun⟩
  | cons batch rest ih =>
    obtain ⟨hnext, hrest⟩ := ih h
    refine ⟨?_, List.forall_mem_cons.2 ⟨?_, hrest⟩⟩
    · exact List.eq_nil_of_subset_nil (hnext ▸ addBatch_txs_subset build batch)
    · by_contra hfee
      rw [LayerBuild.addBatch, if_neg hfee] at hnext
      exact absurd hnext (List.append_ne_nil_of_right_ne_nil _ (List.cons_ne_nil _ _))

/-- One of several positive notes is worth less than all of them. -/
theorem value_lt_sum {batch : List PrepInput} (htwo : 2 ≤ batch.length)
    (hpositive : ∀ note ∈ batch, 0 < note.value) {note : PrepInput} (hnote : note ∈ batch) :
    note.value < (batch.map PrepInput.value).sum := by
  have hperm := List.perm_cons_erase hnote
  have hsum := (hperm.map PrepInput.value).sum_eq
  rw [List.map_cons, List.sum_cons] at hsum
  have hlength := hperm.length_eq
  rw [List.length_cons] at hlength
  obtain ⟨other, hother⟩ := List.exists_mem_of_length_pos
    (show 0 < (batch.erase note).length by omega)
  have hpos := hpositive other (List.mem_of_mem_erase hother)
  have hle := List.single_le_sum (fun _ _ => Nat.zero_le _) _
    (List.mem_map_of_mem (f := PrepInput.value) hother)
  omega

/-- Notes that no batch can pay a fee with are worth less than a fee each. -/
theorem lt_fee_of_consolidate {notes : List PrepInput} (hlength : 1 < notes.length)
    (hpositive : ∀ note ∈ notes, 0 < note.value)
    (h : (consolidate S notes layer fee {}).txs = []) : ∀ note ∈ notes, note.value < fee := by
  have hsum := sum_consolidationBatchSizes notes.length
  rw [consolidate, if_neg (by omega)] at h
  obtain ⟨-, hfees⟩ := sum_le_of_foldl_addBatch h
  have hflatten := flatten_cutBatches (S.sort notes) (consolidationBatchSizes notes.length)
    (by rw [hsum, S.length_sort])
  have hlengths := map_length_cutBatches (S.sort notes) (consolidationBatchSizes notes.length)
    (by rw [hsum, S.length_sort])
  intro note hnote
  have hsorted : note ∈ S.sort notes := S.mem_sort.2 hnote
  rw [← hflatten] at hsorted
  obtain ⟨batch, hbatch, hmem⟩ := List.mem_flatten.1 hsorted
  have htwo := (mem_consolidationBatchSizes (by omega)
    (hlengths ▸ List.mem_map_of_mem hbatch)).1
  refine (value_lt_sum htwo (fun other hother => ?_) hmem).trans_le (hfees batch hbatch)
  refine hpositive other (S.mem_sort.1 ?_)
  rw [← hflatten]
  exact List.mem_flatten.2 ⟨batch, hbatch, hother⟩

/-- At most one note, or notes that are not worth a fee. -/
def SingleResidual (fee : ℕ) (values : List ℕ) : Prop :=
  values.length ≤ 1 ∨ ∀ v ∈ values, v < fee

theorem mergeResidual_single (hpositive : OutputsAre (fun out => out ≠ .intermediate 0) layers) :
    SingleResidual fee
      ((unconsumedFeeders (mergeResidual S fee layers)).map PrepInput.value) := by
  fun_induction mergeResidual S fee layers with
  | case1 layers pool hlength =>
    exact .inl (by rwa [List.length_map])
  | case2 layers pool hlength build hnone =>
    refine .inr fun v hv => ?_
    obtain ⟨note, hnote, rfl⟩ := List.mem_map.1 hv
    refine lt_fee_of_consolidate (not_le.1 hlength) (fun other hother => ?_) hnone note hnote
    obtain ⟨l, t, o, value, rfl, hout⟩ := mem_feeders.1 (mem_unconsumedFeeders.1 hother).1
    refine Nat.pos_of_ne_zero fun hzero => hpositive.outputAt hout ?_
    rw [← hzero]
    rfl
  | case3 layers =>
    rename_i ih
    exact ih (hpositive.concat (consolidate_outputs (by grind) _ fun _ h => by cases h))

theorem greedyLayers_single {remaining : List ℕ} {current : List PrepInput} {final : Layers}
    (hfee : fee < u64Size) (h : greedyLayers S fee remaining current = .ok final) :
    SingleResidual fee ((unconsumedFeeders (mergeResidual S fee final)).map PrepInput.value) := by
  unfold greedyLayers at h
  split at h
  · -- the fan-out leaves one note, which is not merged
    rename_i big _
    rw [greedyLoop, if_pos rfl] at h
    obtain rfl := Except.ok.inj h
    have hstart : (book 0 ([] : Layers)).Exhausts ({big} + 0) := Multiset.zero_le _
    obtain ⟨rest, hcard, -, hrest⟩ := buildSplit_exhausts hfee big.value hstart
    have hlength := Multiset.card_le_card (unconsumedFeeders_le hrest)
    rw [Multiset.coe_card, zero_add] at hlength
    rw [mergeResidual, if_pos (hlength.trans hcard)]
    exact .inl (by rw [List.length_map]; exact hlength.trans hcard)
  · refine mergeResidual_single (greedyLoop_outputs (fun _ h => by cases h) (fun v hv => ?_) .nil h)
    simp only [ne_eq, PrepOutput.intermediate.injEq]
    omega

theorem consolidatedLayers_single {current : List PrepInput} {final : Layers}
    (hfee : fee < u64Size) (h : consolidatedLayers S fee targets current = .ok final) :
    SingleResidual fee ((unconsumedFeeders final).map PrepInput.value) := by
  simp only [consolidatedLayers, bind_eq_ok] at h
  obtain ⟨⟨notes, layers⟩, hall, h⟩ := h
  obtain ⟨hnotes, hlength⟩ := consolidateAll_exhausts (S := S) (Multiset.zero_le _) hall
  dsimp only at h
  split at h
  · cases h
  · rename_i source hlast
    split_ifs at h
    obtain rfl := Except.ok.inj h
    have hsource : notes = [source] := by
      obtain ⟨init, rfl⟩ := List.getLast?_eq_some_iff.1 hlast
      rw [List.length_append, List.length_singleton] at hlength
      rw [List.length_eq_zero_iff.1 (show init.length = 0 by omega), List.nil_append]
    have hstart : (book 0 layers).Exhausts ({source} + 0) := by
      rw [hsource] at hnotes
      exact hnotes
    obtain ⟨rest, hcard, -, hrest⟩ := buildSplit_exhausts hfee source.value hstart
    have hle := Multiset.card_le_card (unconsumedFeeders_le hrest)
    rw [Multiset.coe_card, zero_add] at hle
    exact .inl (by rw [List.length_map]; exact hle.trans hcard)

/-- No layer has change before the relabelling. -/
theorem greedyLayers_unlabelled {remaining : List ℕ} {current : List PrepInput} {final : Layers}
    (h : greedyLayers S fee remaining current = .ok final) :
    OutputsAre (fun out => out.change? = none) (mergeResidual S fee final) := by
  refine mergeResidual_outputs (fun _ _ => rfl) ?_
  unfold greedyLayers at h
  split at h
  · rw [greedyLoop, if_pos rfl] at h
    obtain rfl := Except.ok.inj h
    exact buildSplit_outputs (fun _ => rfl) (fun _ => rfl) _ .nil
  · exact greedyLoop_outputs (fun _ => rfl) (fun _ _ => rfl) .nil h

theorem consolidatedLayers_unlabelled {current : List PrepInput} {final : Layers}
    (h : consolidatedLayers S fee targets current = .ok final) :
    OutputsAre (fun out => out.change? = none) final := by
  simp only [consolidatedLayers, bind_eq_ok] at h
  obtain ⟨⟨notes, layers⟩, hall, h⟩ := h
  dsimp only at h
  split at h
  · cases h
  · split_ifs at h
    obtain rfl := Except.ok.inj h
    refine buildSplit_outputs (fun _ => rfl) (fun _ => rfl) _ ?_
    exact consolidateAll_outputs (fun _ _ => rfl) .nil hall

theorem planPreparation_single {available funding : List Zatoshis} {feePerTx : Zatoshis}
    {plan : PreparationPlan} (h : planPreparation S available funding feePerTx = .ok plan) :
    SingleResidual feePerTx.val plan.residualNotes := by
  have hfee : feePerTx.val < u64Size := feePerTx.le_maxMoney.trans_lt (by decide)
  have hempty (direct : List (ℕ × ℕ)) :
      SingleResidual feePerTx.val (PreparationPlan.residualNotes ⟨[], direct⟩) :=
    .inl (Nat.zero_le _)
  unfold planPreparation at h
  split at h
  · obtain ⟨-, rfl⟩ | ⟨-, layers, hlayers, rfl⟩ := planPreparationViaConsolidation_ok h
    · exact hempty _
    · rw [PreparationPlan.residualNotes, PreparationPlan.allOutputs, PreparationPlan.transactions,
        map_value_residual (consolidatedLayers_unlabelled hlayers)]
      exact consolidatedLayers_single hfee hlayers
  · obtain ⟨-, rfl⟩ | ⟨-, layers, hlayers, rfl⟩ := planPreparationGreedy_ok h
    · exact hempty _
    · rw [PreparationPlan.residualNotes, PreparationPlan.allOutputs, PreparationPlan.transactions,
        map_value_residual (greedyLayers_unlabelled hlayers)]
      exact greedyLayers_single hfee hlayers

/-! ## The loops end -/

/-- One pass of the layered loop. -/
def greedyNext (S : UnstableSort PrepInput.value) (fee : ℕ) :
    List ℕ × List PrepInput × Layers → Option (List ℕ × List PrepInput × Layers)
  | (remaining, current, layers) =>
    if remaining = [] ∨ current = [] then none
    else
      let pass := passOne S fee remaining current
      let build := passTwo S fee layers.length pass
      if build.txs = [] then none else some (pass.remaining, build.next, layers ++ [build.txs])

/-- One pass of the loop that merges the residual. -/
def mergeNext (S : UnstableSort PrepInput.value) (fee : ℕ) (layers : Layers) : Option Layers :=
  let pool := unconsumedFeeders layers
  let build := consolidate S pool layers.length fee {}
  if pool.length ≤ 1 ∨ build.txs = [] then none else some (layers ++ [build.txs])

/-- One pass of the loop of the fallback. -/
def consolidateNext (S : UnstableSort PrepInput.value) (fee : ℕ) :
    List PrepInput × Layers → Option (List PrepInput × Layers)
  | (current, layers) =>
    let build := consolidate S current layers.length fee {}
    if current.length ≤ 1 ∨ build.txs = [] then none
    else some (build.next ++ build.leftover, layers ++ [build.txs])

/-- A loop goes from pass to pass. -/
theorem greedyLoop_next {remaining remaining' : List ℕ} {current current' : List PrepInput}
    {layers' : Layers}
    (h : greedyNext S fee (remaining, current, layers) = some (remaining', current', layers')) :
    greedyLoop S fee remaining current layers = greedyLoop S fee remaining' current' layers' := by
  simp only [greedyNext] at h
  split_ifs at h with hdone hnone
  obtain ⟨hremaining, hcurrent⟩ := not_or.1 hdone
  cases h
  rw [greedyLoop, if_neg hremaining, dif_neg hcurrent]
  dsimp only
  rw [if_neg hnone]

theorem mergeResidual_next {layers' : Layers} (h : mergeNext S fee layers = some layers') :
    mergeResidual S fee layers = mergeResidual S fee layers' := by
  simp only [mergeNext] at h
  split_ifs at h with hdone
  obtain ⟨hlength, hnone⟩ := not_or.1 hdone
  cases h
  rw [mergeResidual]
  dsimp only
  rw [if_neg hlength, dif_neg hnone]

theorem consolidateAll_next {current current' : List PrepInput} {layers' : Layers}
    (h : consolidateNext S fee (current, layers) = some (current', layers')) :
    consolidateAll S fee current layers = consolidateAll S fee current' layers' := by
  simp only [consolidateNext] at h
  split_ifs at h with hdone
  obtain ⟨hlength, hnone⟩ := not_or.1 hdone
  cases h
  rw [consolidateAll, if_neg hlength]
  dsimp only
  rw [dif_neg hnone]

/-- A loop whose passes lessen a measure ends. -/
theorem wellFounded_of_measure {σ : Type*} (next : σ → Option σ) (measure : σ → ℕ)
    (h : ∀ state state', next state = some state' → measure state' < measure state) :
    WellFounded fun state' state => next state = some state' :=
  Subrelation.wf (h _ _) (InvImage.wf measure Nat.lt_wfRel.wf)

/-- At most one residual note is worth a fee, several are not worth one each, and each loop of the
planner ends from every state. -/
theorem planPreparation_residual (S : UnstableSort PrepInput.value) :
    (∀ (available funding : List Zatoshis) (feePerTx : Zatoshis) (plan : PreparationPlan),
      planPreparation S available funding feePerTx = .ok plan →
      (plan.residualNotes.filter (feePerTx.val ≤ ·)).length ≤ 1 ∧
        (2 ≤ plan.residualNotes.length → ∀ v ∈ plan.residualNotes, v < feePerTx.val)) ∧
    ∀ fee : ℕ, (WellFounded fun state' state => greedyNext S fee state = some state') ∧
      (WellFounded fun layers' layers => mergeNext S fee layers = some layers') ∧
      WellFounded fun state' state => consolidateNext S fee state = some state' := by
  refine ⟨fun available funding feePerTx plan h => ?_, fun fee => ⟨?_, ?_, ?_⟩⟩
  · obtain hone | hless := planPreparation_single h
    · exact ⟨(List.length_filter_le _ _).trans hone, fun htwo => by omega⟩
    · refine ⟨?_, fun _ => hless⟩
      have hnone : plan.residualNotes.filter (feePerTx.val ≤ ·) = [] :=
        List.filter_eq_nil_iff.2 fun v hv => by simpa using hless v hv
      rw [hnone]
      exact Nat.zero_le _
  · refine wellFounded_of_measure _ (fun state => state.1.length + state.2.1.length) ?_
    rintro ⟨remaining, current, layers⟩ ⟨remaining', current', layers'⟩ h
    simp only [greedyNext] at h
    split_ifs at h with hdone
    cases h
    exact passTwo_lt S fee layers.length remaining (not_or.1 hdone).2
  · refine wellFounded_of_measure _ (fun layers => (unconsumedFeeders layers).length) ?_
    intro layers layers' h
    simp only [mergeNext] at h
    split_ifs at h with hdone
    cases h
    exact unconsumedFeeders_merge_lt S fee layers (not_or.1 hdone).2
  · refine wellFounded_of_measure _ (fun state => state.1.length) ?_
    rintro ⟨current, layers⟩ ⟨current', layers'⟩ h
    simp only [consolidateNext] at h
    split_ifs at h with hdone
    cases h
    exact consolidate_pool_lt S current layers.length fee (not_or.1 hdone).2

/-- Two notes combined to mint one funding value leave one note worth a fee. -/
theorem planPreparation_residual_combined :
    ([30].filter (10 ≤ ·)).length ≤ 1 ∧ (2 ≤ [30].length → ∀ v ∈ [30], v < 10) :=
  (planPreparation_residual (.ofInsertion PrepInput.value)).1
    [⟨100, by decide⟩, ⟨100, by decide⟩, ⟨100, by decide⟩] [⟨100, by decide⟩, ⟨150, by decide⟩]
    ⟨10, by decide⟩
    { layers := [[⟨[.wallet 1 100, .wallet 2 100], [.intermediate 190]⟩],
        [⟨[.prior 0 0 0 190], [.funding 150, .change 30]⟩]],
      directFunding := [(0, 100)] } (by decide +kernel)

end VizorWallet.Migration
