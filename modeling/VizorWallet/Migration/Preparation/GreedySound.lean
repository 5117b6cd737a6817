import VizorWallet.Migration.Preparation.Planner
import VizorWallet.Migration.Preparation.SplitSound

/-!
# The layered planners are sound

Each transaction that the greedy mints, and each batch that a consolidation combines, is pushed to
the layer under construction, so `Sound` is kept by every step of the loops.
-/

namespace VizorWallet.Migration

variable {S : UnstableSort PrepInput.value} {wallet pool : Multiset PrepInput} {fee : ℕ}
  {layers : Layers} {minted : Multiset ℕ} {build : LayerBuild}

theorem PrepInput.Before.succ {note : PrepInput} {layer : ℕ} (h : note.Before layer) :
    note.Before (layer + 1) := by
  cases note with
  | wallet index value => trivial
  | prior l t o v => exact Nat.lt_succ_of_lt h

/-! ## The layer under construction -/

theorem pushTransaction_last (layers : Layers) (txs : List PrepTransaction)
    (tx : PrepTransaction) :
    pushTransaction (layers ++ [txs]) layers.length tx = layers ++ [txs ++ [tx]] := by
  induction layers with
  | nil => rfl
  | cons first rest ih => simpa [pushTransaction] using ih

theorem layerLength_last (layers : Layers) (txs : List PrepTransaction) :
    layerLength (layers ++ [txs]) layers.length = txs.length := by
  simp [layerLength]

/-- Append a transaction to the last layer. -/
theorem Sound.push_last {txs : List PrepTransaction} {tx : PrepTransaction}
    (h : Sound wallet fee (layers ++ [txs]) (tx.inputs + pool) minted)
    (htx : WellFormed fee layers.length tx) :
    Sound wallet fee (layers ++ [txs ++ [tx]])
      (pool + txFeeders layers.length txs.length tx.outputs)
      (minted + tx.outputs.filterMap PrepOutput.funding?) := by
  have hlast : layers.length < (layers ++ [txs]).length := by simp
  have hpush := h.push hlast htx
  rwa [pushTransaction_last, layerLength_last] at hpush

theorem Sound.open_layer (h : Sound wallet fee layers pool minted) :
    Sound wallet fee (layers ++ [[]]) pool minted :=
  h.append_empty 1

/-! ## Minting -/

theorem txFeeders_fanOut (layer transaction leftover : ℕ) (values : List ℕ) :
    txFeeders layer transaction (values.map .funding ++ leftoverOutput leftover) =
      leftoverInput layer transaction values.length leftover := by
  have hfunding : (fun x : PrepOutput × ℕ => x.1.feeder? layer transaction x.2) ∘
      Prod.map PrepOutput.funding id = fun _ => none := rfl
  simp only [txFeeders, List.zipIdx_append, List.filterMap_append, List.zipIdx_map,
    List.filterMap_map, hfunding, List.filterMap_none, List.nil_append, List.length_map,
    Nat.zero_add, leftoverOutput, leftoverInput]
  split_ifs <;> rfl

theorem assignFunding_spec (budget : ℕ) (remaining : List ℕ) (used slots : ℕ)
    (hused : used ≤ budget) :
    (assignFunding budget remaining used slots).assigned.length ≤ slots ∧
      (assignFunding budget remaining used slots).used =
        used + (assignFunding budget remaining used slots).assigned.sum ∧
      (assignFunding budget remaining used slots).used ≤ budget := by
  fun_induction assignFunding budget remaining used slots <;> grind

theorem assignFunding_perm (budget : ℕ) (remaining : List ℕ) (used slots : ℕ) :
    ((assignFunding budget remaining used slots).assigned : Multiset ℕ) +
      (assignFunding budget remaining used slots).kept = remaining := by
  fun_induction assignFunding budget remaining used slots with
  | case1 => rfl
  | case2 => simp
  | case3 used v rest slots hle scan ih =>
    rw [← Multiset.cons_coe, Multiset.cons_add, ih, Multiset.cons_coe]
  | case4 v rest used slots hgt scan ih =>
    rw [← Multiset.cons_coe, Multiset.add_cons, ih, Multiset.cons_coe]

/-- An assignment spends its note on the values assigned, the leftover and the fee. -/
def Assignment.Fits (fee : ℕ) (a : Assignment) : Prop :=
  a.assigned.length ≤ fundingOutputsPerTx ∧ a.assigned.sum + a.leftover + fee = a.input.value

/-- What the first pass keeps: no note is used twice and no funding value is lost. -/
structure PassOne.Valid (fee : ℕ) (notes : Multiset PrepInput) (targets : Multiset ℕ)
    (pass : PassOne) : Prop where
  notes_le : (pass.assignments.map Assignment.input : Multiset PrepInput) + pass.consolidatable ≤
    notes
  funding : (pass.assignments.flatMap Assignment.assigned : Multiset ℕ) + pass.remaining = targets
  fits : ∀ a ∈ pass.assignments, a.Fits fee

theorem PassOne.Valid.step {notes : Multiset PrepInput} {targets : Multiset ℕ} {pass : PassOne}
    (h : pass.Valid fee notes targets) (input : PrepInput) :
    (pass.step fee input).Valid fee (notes + {input}) targets := by
  unfold PassOne.step
  split
  · exact { h with notes_le := h.notes_le.trans (Multiset.le_add_right _ _) }
  · split_ifs with hsmall
    · refine { h with notes_le := ?_ }
      simp only [← Multiset.coe_add, ← add_assoc]
      exact add_le_add_left h.notes_le _
    · have hspec := assignFunding_spec (input.value - fee) pass.remaining 0 fundingOutputsPerTx
        (Nat.zero_le _)
      have hperm := assignFunding_perm (input.value - fee) pass.remaining 0 fundingOutputsPerTx
      constructor
      · simp only [List.map_append, ← Multiset.coe_add, List.map_cons, List.map_nil]
        rw [add_right_comm]
        exact add_le_add_left h.notes_le _
      · simp only [List.flatMap_append, ← Multiset.coe_add, List.flatMap_cons, List.flatMap_nil,
          List.append_nil]
        rw [add_assoc, hperm, h.funding]
      · intro a ha
        rcases List.mem_append.1 ha with ha | ha
        · exact h.fits a ha
        · rw [List.mem_singleton.1 ha]
          exact ⟨hspec.1, by simp only; omega⟩

theorem passOne_valid (S : UnstableSort PrepInput.value) (fee : ℕ) (remaining : List ℕ)
    (current : List PrepInput) :
    (passOne S fee remaining current).Valid fee current remaining := by
  have hfold : ∀ (inputs : List PrepInput) (notes : Multiset PrepInput) (pass : PassOne),
      pass.Valid fee notes remaining →
      (inputs.foldl (PassOne.step fee) pass).Valid fee (notes + inputs) remaining := by
    intro inputs
    induction inputs with
    | nil => intro notes pass h; simpa using h
    | cons input rest ih =>
      intro notes pass h
      have hrest := ih _ _ (h.step input)
      rwa [add_assoc, Multiset.singleton_add, Multiset.cons_coe] at hrest
  have hstart : PassOne.Valid fee 0 (remaining : Multiset ℕ) { remaining := remaining } :=
    ⟨by simp, by simp, by simp⟩
  simpa [passOne, S.coe_sort] using hfold (S.sort current) 0 _ hstart

/-- Minting one assignment. -/
theorem LayerBuild.mint_sound {a : Assignment} (hfits : a.Fits fee)
    (hbefore : a.input.Before layers.length)
    (h : Sound wallet fee (layers ++ [build.txs]) ({a.input} + pool) minted) :
    Sound wallet fee (layers ++ [(build.mint layers.length a).txs])
      (pool + leftoverInput layers.length build.txs.length a.assigned.length a.leftover)
      (minted + a.assigned) := by
  have htx : WellFormed fee layers.length
      ⟨[a.input], a.assigned.map .funding ++ leftoverOutput a.leftover⟩ :=
    wellFormed_fanOut hbefore (by simpa using hfits.1)
      (by simpa only [sum_map_funding] using hfits.2)
  have hpush := Sound.push_last h htx
  simpa only [LayerBuild.mint, txFeeders_fanOut, List.filterMap_append, funding_map_funding,
    funding_leftoverOutput, List.append_nil] using hpush

/-- Minting all assignments leaves the leftovers to the next layer. -/
theorem foldl_mint_sound (build : LayerBuild) (assignments : List Assignment)
    (hfits : ∀ a ∈ assignments, a.Fits fee ∧ a.input.Before layers.length)
    (hnext : ∀ note ∈ build.next, note.Before (layers.length + 1))
    (h : Sound wallet fee (layers ++ [build.txs])
      ((assignments.map Assignment.input : Multiset PrepInput) + (pool + build.next)) minted) :
    let final := assignments.foldl (LayerBuild.mint layers.length) build
    Sound wallet fee (layers ++ [final.txs]) (pool + final.next)
        (minted + assignments.flatMap Assignment.assigned) ∧
      ∀ note ∈ final.next, note.Before (layers.length + 1) := by
  induction assignments generalizing build minted with
  | nil => exact ⟨by simpa using h, hnext⟩
  | cons a rest ih =>
    obtain ⟨hfit, hbefore⟩ := hfits a List.mem_cons_self
    rw [List.map_cons, ← Multiset.cons_coe, ← Multiset.singleton_add, add_assoc] at h
    have hmint := LayerBuild.mint_sound hfit hbefore h
    rw [add_assoc, add_assoc, Multiset.coe_add] at hmint
    have hleft : ∀ note ∈ (build.mint layers.length a).next, note.Before (layers.length + 1) := by
      intro note hmem
      rcases List.mem_append.1 hmem with hmem | hmem
      · exact hnext note hmem
      · unfold leftoverInput at hmem
        split_ifs at hmem
        · rw [List.mem_singleton.1 hmem]
          exact Nat.lt_succ_self _
        · simp at hmem
    have hrest := ih _ (fun b hb => hfits b (List.mem_cons_of_mem _ hb)) hleft hmint
    rw [add_assoc, Multiset.coe_add] at hrest
    simpa only [List.foldl_cons, List.flatMap_cons] using hrest

/-! ## Combining -/

/-- Combining one batch. -/
theorem LayerBuild.combine_sound {batch : List PrepInput} (htwo : 2 ≤ batch.length)
    (hmax : batch.length ≤ consolidationInputsPerTx)
    (hfee : fee < (batch.map PrepInput.value).sum)
    (hbefore : ∀ note ∈ batch, note.Before layers.length)
    (h : Sound wallet fee (layers ++ [build.txs]) (batch + pool) minted) :
    Sound wallet fee (layers ++ [(build.combine layers.length fee batch).txs])
      (pool + {.prior layers.length build.txs.length 0 ((batch.map PrepInput.value).sum - fee)})
      minted := by
  have htx : WellFormed fee layers.length
      ⟨batch, [.intermediate ((batch.map PrepInput.value).sum - fee)]⟩ :=
    { inputs_ne_nil := List.length_pos_iff.1 (by simp only; omega)
      actionCount_le := by
        have hsize : consolidationInputsPerTx + 1 = prepTxActions := rfl
        simp only [PrepTransaction.actionCount, List.length_singleton]
        omega
      balanced := by
        simp only [List.map_cons, List.map_nil, List.sum_cons, List.sum_nil,
          PrepOutput.value_intermediate]
        omega
      before := hbefore }
  have hpush := Sound.push_last h htx
  have hfunding : [PrepOutput.intermediate ((batch.map PrepInput.value).sum - fee)].filterMap
      PrepOutput.funding? = [] := rfl
  simpa [LayerBuild.combine, txFeeders, PrepOutput.feeder?, hfunding] using hpush

/-- The notes a layer under construction leaves to spend. -/
def LayerBuild.left (build : LayerBuild) : List PrepInput := build.next ++ build.leftover

/-- What a consolidation keeps of the layer under construction: the notes not combined yet, those
left and those produced can all be spent later. -/
structure Consolidating (wallet : Multiset PrepInput) (fee : ℕ) (layers : Layers)
    (minted : Multiset ℕ) (build : LayerBuild) (rest : Multiset PrepInput) : Prop where
  sound : Sound wallet fee (layers ++ [build.txs]) (rest + build.left) minted
  rest_before : ∀ note ∈ rest, note.Before layers.length
  left_before : ∀ note ∈ build.left, note.Before (layers.length + 1)

theorem Consolidating.leave {batch : List PrepInput} {rest : Multiset PrepInput}
    (h : Consolidating wallet fee layers minted build (batch + rest)) :
    Consolidating wallet fee layers minted (build.leave batch) rest where
  sound := by
    refine h.sound.mono (le_of_eq ?_)
    simp only [LayerBuild.left, LayerBuild.leave, ← Multiset.coe_add]
    abel
  rest_before note hmem := h.rest_before note (Multiset.mem_add.2 (.inr hmem))
  left_before note hmem := by
    rw [LayerBuild.left, LayerBuild.leave, ← List.append_assoc] at hmem
    rcases List.mem_append.1 hmem with hmem | hmem
    · exact h.left_before note hmem
    · exact (h.rest_before note (Multiset.mem_add.2 (.inl hmem))).succ

theorem Consolidating.combine {batch : List PrepInput} {rest : Multiset PrepInput}
    (htwo : 2 ≤ batch.length) (hmax : batch.length ≤ consolidationInputsPerTx)
    (hfee : fee < (batch.map PrepInput.value).sum)
    (h : Consolidating wallet fee layers minted build (batch + rest)) :
    Consolidating wallet fee layers minted (build.combine layers.length fee batch) rest where
  sound := by
    have hsound := h.sound
    rw [add_assoc] at hsound
    refine (LayerBuild.combine_sound htwo hmax hfee
      (fun note hmem => h.rest_before note (Multiset.mem_add.2 (.inl hmem))) hsound).mono ?_
    simp only [LayerBuild.left, LayerBuild.combine, ← Multiset.coe_add, Multiset.coe_singleton]
    refine le_of_eq ?_
    abel
  rest_before note hmem := h.rest_before note (Multiset.mem_add.2 (.inr hmem))
  left_before note hmem := by
    simp only [LayerBuild.left, LayerBuild.combine, List.append_assoc, List.mem_append,
      List.mem_singleton] at hmem
    rcases hmem with hmem | rfl | hmem
    · exact h.left_before note (List.mem_append_left _ hmem)
    · exact Nat.lt_succ_self _
    · exact h.left_before note (List.mem_append_right _ hmem)

theorem Consolidating.consolidate {pool : List PrepInput}
    (h : Consolidating wallet fee layers minted build pool) :
    Consolidating wallet fee layers minted (consolidate S pool layers.length fee build) 0 :=
  consolidate_induction S layers.length fee build pool
    (motive := Consolidating wallet fee layers minted) h
    (fun _ _ _ h => h.leave) fun _ _ _ htwo hmax hfee h => h.combine htwo hmax hfee

/-- Consolidating a pool as a layer of its own. -/
theorem consolidate_sound {pool : List PrepInput} (h : Sound wallet fee layers pool minted)
    (hbefore : ∀ note ∈ pool, note.Before layers.length) :
    Consolidating wallet fee layers minted (consolidate S pool layers.length fee {}) 0 :=
  Consolidating.consolidate
    ⟨by simpa [LayerBuild.left] using h.open_layer, hbefore, by simp [LayerBuild.left]⟩

/-! ## The loops -/

/-- One layer of the greedy. -/
theorem passTwo_sound (S : UnstableSort PrepInput.value) (remaining : List ℕ)
    {current : List PrepInput}
    (h : Sound wallet fee layers current minted)
    (hbefore : ∀ note ∈ current, note.Before layers.length) :
    let pass := passOne S fee remaining current
    let build := passTwo S fee layers.length pass
    ∃ minted', Sound wallet fee (layers ++ [build.txs]) build.next minted' ∧
      minted' + pass.remaining = minted + remaining ∧
      ∀ note ∈ build.next, note.Before (layers.length + 1) := by
  intro pass build
  have hvalid := passOne_valid S fee remaining current
  have hused : ∀ note ∈ pass.assignments.map Assignment.input ++ pass.consolidatable,
      note.Before layers.length := fun note hmem =>
    hbefore note (Multiset.mem_of_le hvalid.notes_le (by simpa using hmem))
  have hpool : (pass.assignments.map Assignment.input : Multiset PrepInput) +
      (pass.consolidatable + (({} : LayerBuild).next : Multiset PrepInput)) ≤ current := by
    simpa using hvalid.notes_le
  have hmint := foldl_mint_sound {} pass.assignments
    (fun a ha => ⟨hvalid.fits a ha,
      hused _ (List.mem_append_left _ (List.mem_map_of_mem ha))⟩)
    (by simp) (h.open_layer.mono hpool)
  have hleft := (foldl_mint_length layers.length pass.assignments {}).2.2
  have hdone : Consolidating wallet fee layers _ build 0 :=
    Consolidating.consolidate (S := S)
      ⟨by simpa [LayerBuild.left, hleft] using hmint.1,
        fun note hmem => hused note (List.mem_append_right _ hmem),
        by simpa [LayerBuild.left, hleft] using hmint.2⟩
  refine ⟨_, hdone.sound.mono ?_, ?_, fun note hmem =>
    hdone.left_before note (List.mem_append_left _ hmem)⟩
  · rw [zero_add]
    exact Multiset.coe_le.2 (List.sublist_append_left _ _).subperm
  · rw [add_assoc, hvalid.funding]

theorem greedyLoop_sound {remaining : List ℕ} {current : List PrepInput} {final : Layers}
    (h : Sound wallet fee layers current minted)
    (hbefore : ∀ note ∈ current, note.Before layers.length)
    (hloop : greedyLoop S fee remaining current layers = .ok final) :
    Sound wallet fee final 0 (minted + remaining) := by
  fun_induction greedyLoop S fee remaining current layers generalizing minted with
  | case1 current layers =>
    obtain rfl := Except.ok.inj hloop
    simpa using h.mono (Multiset.zero_le _)
  | case2 => cases hloop
  | case3 => cases hloop
  | case4 remaining current layers hremaining hcurrent pass build htxs =>
    rename_i ih
    obtain ⟨minted', hsound, hminted, hnext⟩ := passTwo_sound S remaining h hbefore
    rw [← hminted]
    exact ih hsound (by simpa using hnext) hloop

end VizorWallet.Migration
