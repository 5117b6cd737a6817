import VizorWallet.Migration.Preparation.Direct
import VizorWallet.Migration.Preparation.GreedySound

/-!
# Soundness of the preparation planner

Whichever path produced it, a plan of `planPreparation` respects the action budget and the value
balance, spends every note at most once and only where it exists, leaves its direct notes alone,
and mints exactly the requested funding notes.

## Main results

* `planPreparation_sound` — the plan is a `SoundPlan`.
* `planPreparation_ledger` — the plan is the relabelled form of sound layers.
-/

namespace VizorWallet.Migration

/-- What a plan promises: for the wallet notes `available`, the funding values `funding` and the
fee of a transaction. -/
structure SoundPlan (available funding : List ℕ) (fee : ℕ) (plan : PreparationPlan) : Prop where
  inputs_ne_nil : ∀ tx ∈ plan.transactions, tx.inputs ≠ []
  actionCount_le : ∀ tx ∈ plan.transactions, tx.actionCount ≤ prepTxActions
  balanced : ∀ tx ∈ plan.transactions,
    (tx.inputs.map PrepInput.value).sum = (tx.outputs.map PrepOutput.value).sum + fee
  /-- A wallet input carries the value of the note it names. -/
  wallet_carried : ∀ tx ∈ plan.transactions, ∀ index value,
    .wallet index value ∈ tx.inputs → available[index]? = some value
  /-- A prior input names an intermediate output of an earlier layer, of its value. -/
  prior_carried : ∀ layer txs, plan.layers[layer]? = some txs → ∀ tx ∈ txs, ∀ l t o value,
    .prior l t o value ∈ tx.inputs →
      l < layer ∧ outputAt plan.layers l t o = some (.intermediate value)
  spent_once : ((spentInputs plan.layers).map PrepInput.ref).Nodup
  /-- A direct note is worth its funding value, funds one value, and is not spent. -/
  direct_carried : ∀ note ∈ plan.directFunding, available[note.1]? = some note.2
  direct_once : (plan.directFunding.map Prod.fst).Nodup
  direct_unspent : ∀ note ∈ plan.directFunding,
    .wallet note.1 ∉ (spentInputs plan.layers).map PrepInput.ref
  /-- An output still labelled intermediate is spent once, by a later layer. -/
  intermediate_spent : ∀ l t o value, outputAt plan.layers l t o = some (.intermediate value) →
    ((spentInputs plan.layers).map PrepInput.ref).count (.output l t o) = 1 ∧
      ∃ layer > l, ∃ txs, plan.layers[layer]? = some txs ∧
        ∃ tx ∈ txs, .prior l t o value ∈ tx.inputs
  /-- Change and funding outputs are not spent. -/
  final_unspent : ∀ l t o out, outputAt plan.layers l t o = some out →
    (∀ value, out ≠ .intermediate value) →
      .output l t o ∉ (spentInputs plan.layers).map PrepInput.ref
  fundingNotes_perm : plan.fundingNotes.Perm (funding.filter (0 < ·))

variable {S : UnstableSort PrepInput.value} {wallet pool : Multiset PrepInput} {fee : ℕ}
  {layers : Layers} {minted : Multiset ℕ}

/-! ## Merging the residual -/

/-- The wallet of a plan holds wallet notes with distinct names. -/
structure IsWallet (wallet : Multiset PrepInput) : Prop where
  isWallet : ∀ note ∈ wallet, ∃ index value, note = .wallet index value
  nodup : (wallet.map PrepInput.ref).Nodup

theorem nodup_minted (hwallet : IsWallet wallet) (layers : Layers) :
    ((book wallet layers).minted.map PrepInput.ref).Nodup := by
  rw [book, Multiset.map_add, Multiset.nodup_add]
  refine ⟨hwallet.nodup, nodup_feeders layers, Multiset.disjoint_left.2 ?_⟩
  intro ref hleft hright
  obtain ⟨note, hnote, rfl⟩ := Multiset.mem_map.1 hleft
  obtain ⟨note', hnote', heq⟩ := Multiset.mem_map.1 hright
  obtain ⟨index, value, rfl⟩ := hwallet.isWallet note hnote
  obtain ⟨l, t, o, v, rfl, -⟩ := mem_feeders.1 hnote'
  cases heq

theorem mem_unconsumedFeeders {note : PrepInput} :
    note ∈ unconsumedFeeders layers ↔
      note ∈ feeders layers ∧ note.ref ∉ (spentInputs layers).map PrepInput.ref := by
  rw [unconsumedFeeders, List.mem_filter, and_congr_right_iff]
  intro hmem
  obtain ⟨l, t, o, v, rfl, -⟩ := mem_feeders.1 hmem
  simp only [PrepInput.coordinates?, Option.any_some, decide_eq_true_eq, PrepInput.ref,
    not_iff_not, spentOutputs, List.mem_filterMap, List.mem_map]
  constructor
  · rintro ⟨input, hinput, hcoordinates⟩
    cases input <;> cases hcoordinates
    exact ⟨_, hinput, rfl⟩
  · rintro ⟨input, hinput, href⟩
    cases input <;> cases href
    exact ⟨_, hinput, rfl⟩

/-- The feeders that nothing spends are a pool to spend. -/
theorem Sound.unconsumed (hwallet : IsWallet wallet) (h : Sound wallet fee layers pool minted) :
    Sound wallet fee layers (unconsumedFeeders layers) minted := by
  have hcovers := Book.covers_of_not_spent PrepInput.ref (unconsumedFeeders layers)
    h.covers.spent_le ?_ (nodup_minted hwallet layers) ?_
  · exact { h with covers := hcovers }
  · refine le_trans (Multiset.coe_le.2 ?_) (Multiset.le_add_left _ _)
    exact (List.filter_sublist).subperm
  · intro note hmem hspent
    exact (mem_unconsumedFeeders.1 hmem).2 (by simpa [book] using hspent)

theorem unconsumedFeeders_before {note : PrepInput} (h : note ∈ unconsumedFeeders layers) :
    note.Before layers.length := by
  obtain ⟨l, t, o, v, rfl, hout⟩ := mem_feeders.1 (mem_unconsumedFeeders.1 h).1
  by_contra hge
  have hnone : layers[l]? = none := List.getElem?_eq_none (by simpa [PrepInput.Before] using hge)
  simp [outputAt, hnone] at hout

theorem mergeResidual_sound (hwallet : IsWallet wallet) (h : Sound wallet fee layers pool minted) :
    Sound wallet fee (mergeResidual S fee layers) 0 minted := by
  fun_induction mergeResidual S fee layers generalizing pool with
  | case1 layers => exact h.mono (Multiset.zero_le _)
  | case2 layers => exact h.mono (Multiset.zero_le _)
  | case3 layers =>
    rename_i ih
    exact ih (consolidate_sound (h.unconsumed hwallet) fun note hmem =>
      unconsumedFeeders_before hmem).sound

/-! ## The layers of the planners -/

theorem consolidateAll_sound {current rest : List PrepInput} {final : Layers}
    (h : Sound wallet fee layers current minted)
    (hbefore : ∀ note ∈ current, note.Before layers.length)
    (hloop : consolidateAll S fee current layers = .ok (rest, final)) :
    Sound wallet fee final rest minted ∧ ∀ note ∈ rest, note.Before final.length := by
  fun_induction consolidateAll S fee current layers with
  | case1 current layers =>
    obtain ⟨rfl, rfl⟩ := Prod.mk.inj (Except.ok.inj hloop)
    exact ⟨h, hbefore⟩
  | case2 => cases hloop
  | case3 current layers =>
    rename_i ih
    have hdone := consolidate_sound (S := S) h hbefore
    refine ih ?_ (by simpa [LayerBuild.left] using hdone.left_before) hloop
    simpa [LayerBuild.left] using hdone.sound

theorem largestNote_mem {notes : List PrepInput} {note : PrepInput}
    (h : largestNote notes = some note) : note ∈ notes := by
  have hfold : ∀ (l : List PrepInput) (best : Option PrepInput) (n : PrepInput),
      l.foldl (fun best note => best.elim (some note) fun b =>
        if b.value ≤ note.value then some note else some b) best = some n →
      n ∈ l ∨ best = some n := by
    intro l
    induction l with
    | nil => intro best n h; exact .inr h
    | cons a rest ih =>
      intro best n h
      rcases ih _ n h with hmem | heq
      · exact .inl (List.mem_cons_of_mem _ hmem)
      · cases best <;> grind
  rw [largestNote_eq] at h
  simpa using hfold notes none note h

/-- Merging never removes a transaction. -/
theorem length_flatten_mergeResidual_ge (S : UnstableSort PrepInput.value) (fee : ℕ)
    (layers : Layers) :
    layers.flatten.length ≤ (mergeResidual S fee layers).flatten.length := by
  fun_induction mergeResidual S fee layers with
  | case1 layers => exact le_rfl
  | case2 layers => exact le_rfl
  | case3 layers =>
    rename_i ih
    refine le_trans ?_ ih
    simp

theorem greedyLayers_sound {remaining : List ℕ} {current : List PrepInput} {final : Layers}
    (hfit : (subtreeCost remaining fee).1 ≤ final.flatten.length → SplitFits remaining fee)
    (hcurrent : ∀ note ∈ current, note.Before 0)
    (h : greedyLayers S fee remaining current = .ok final) :
    Sound current fee final 0 remaining := by
  have hstart := sound_nil (current : Multiset PrepInput) fee
  unfold greedyLayers at h
  split at h
  · rename_i big hbig
    obtain ⟨hlargest, hcost⟩ := Option.filter_eq_some_iff.1 hbig
    have hmem := largestNote_mem hlargest
    rw [greedyLoop, if_pos rfl] at h
    obtain rfl := Except.ok.inj h
    have hsource : Sound current fee [] ({big} + 0) 0 := hstart.mono (by simpa using hmem)
    rw [length_flatten_buildSplit] at hfit
    have hsplit := buildSplit_sound (hfit (Nat.le_add_left _ _)) hsource (hcurrent big hmem)
      (by simpa using hcost)
    simpa using hsplit
  · simpa using greedyLoop_sound hstart hcurrent h

theorem consolidatedLayers_sound {targets : List ℕ} {current : List PrepInput} {final : Layers}
    (hfit : (subtreeCost targets fee).1 ≤ final.flatten.length → SplitFits targets fee)
    (hcurrent : ∀ note ∈ current, note.Before 0) (hle : (current : Multiset PrepInput) ≤ wallet)
    (h : consolidatedLayers S fee targets current = .ok final) :
    Sound wallet fee final 0 targets := by
  unfold consolidatedLayers at h
  rcases hall : consolidateAll S fee current [] with error | ⟨rest, layers⟩
  · rw [hall] at h
    cases h
  · rw [hall] at h
    simp only [bind, Except.bind, pure, Except.pure] at h
    obtain ⟨hsound, hbefore⟩ := consolidateAll_sound ((sound_nil wallet fee).mono hle) hcurrent hall
    split at h
    · cases h
    · rename_i source hlast
      have hmem := List.mem_of_getLast? hlast
      split_ifs at h with hcost
      obtain rfl := Except.ok.inj h
      have hsource : Sound wallet fee layers ({source} + 0) 0 := hsound.mono (by simpa using hmem)
      rw [length_flatten_buildSplit] at hfit
      have hsplit := buildSplit_sound (hfit (Nat.le_add_left _ _)) hsource (hbefore source hmem)
        (by omega)
      simpa using hsplit

/-! ## Relabelling -/

/-- A transaction with its unspent intermediate outputs relabelled. -/
def relabelTx (spent : List (ℕ × ℕ × ℕ)) (layer transaction : ℕ) (tx : PrepTransaction) :
    PrepTransaction :=
  { tx with
    outputs := tx.outputs.mapIdx fun oi out => relabelOutput spent (layer, transaction, oi) out }

theorem mem_relabel {layer : ℕ} {txs : List PrepTransaction} {tx : PrepTransaction}
    (hlayer : (relabel layers)[layer]? = some txs) (htx : tx ∈ txs) :
    ∃ old t, layers[layer]? = some old ∧ ∃ tx₀ ∈ old,
      tx = relabelTx (spentOutputs layers) layer t tx₀ := by
  rw [relabel, List.getElem?_mapIdx, Option.map_eq_some_iff] at hlayer
  obtain ⟨old, hold, rfl⟩ := hlayer
  obtain ⟨t, ht, rfl⟩ := List.mem_mapIdx.1 htx
  exact ⟨old, t, hold, old[t], List.getElem_mem ht, rfl⟩

theorem outputAt_relabel (layers : Layers) (l t o : ℕ) :
    outputAt (relabel layers) l t o =
      (outputAt layers l t o).map (relabelOutput (spentOutputs layers) (l, t, o)) := by
  simp only [outputAt, relabel, List.getElem?_mapIdx]
  rcases layers[l]? with _ | txs
  · rfl
  · simp only [Option.map_some, Option.getD_some, List.getElem?_mapIdx]
    rcases txs[t]? with _ | tx
    · rfl
    · simp [List.getElem?_mapIdx]

@[simp] theorem value_relabelOutput (spent : List (ℕ × ℕ × ℕ)) (c : ℕ × ℕ × ℕ)
    (out : PrepOutput) : (relabelOutput spent c out).value = out.value := by
  cases out <;> simp only [relabelOutput]
  split_ifs <;> rfl

@[simp] theorem funding_relabelOutput (spent : List (ℕ × ℕ × ℕ)) (c : ℕ × ℕ × ℕ)
    (out : PrepOutput) : (relabelOutput spent c out).funding? = out.funding? := by
  cases out <;> simp only [relabelOutput]
  split_ifs <;> rfl

/-- Mapping with positions loses nothing that the positions do not change. -/
theorem filterMap_mapIdx {α β γ : Type*} (f : ℕ → α → β) (g : β → Option γ) (g' : α → Option γ)
    (h : ∀ i a, g (f i a) = g' a) (l : List α) : (l.mapIdx f).filterMap g = l.filterMap g' := by
  induction l generalizing f with
  | nil => rfl
  | cons a rest ih => simp [List.mapIdx_cons, List.filterMap_cons, h, ih _ fun i a => h (i + 1) a]

theorem map_mapIdx {α β γ : Type*} (f : ℕ → α → β) (g : β → γ) (g' : α → γ)
    (h : ∀ i a, g (f i a) = g' a) (l : List α) : (l.mapIdx f).map g = l.map g' := by
  induction l generalizing f with
  | nil => rfl
  | cons a rest ih => simp [List.mapIdx_cons, h, ih _ fun i a => h (i + 1) a]

theorem map_relabel {γ : Type*} (g : PrepTransaction → γ)
    (h : ∀ spent l t tx, g (relabelTx spent l t tx) = g tx) (layers : Layers) :
    (relabel layers).flatten.map g = layers.flatten.map g := by
  rw [List.map_flatten, List.map_flatten]
  congr 1
  exact map_mapIdx _ _ _ (fun li txs => map_mapIdx _ _ _ (fun ti tx => h _ li ti tx) txs) layers

@[simp] theorem spentInputs_relabel (layers : Layers) :
    spentInputs (relabel layers) = spentInputs layers := by
  rw [spentInputs, spentInputs, List.flatMap_def, List.flatMap_def,
    map_relabel PrepTransaction.inputs fun _ _ _ _ => rfl]

@[simp] theorem fundingMinted_relabel (layers : Layers) :
    fundingMinted (relabel layers) = fundingMinted layers := by
  have hfunding := map_relabel (fun tx => tx.outputs.filterMap PrepOutput.funding?)
    (fun spent l t tx => filterMap_mapIdx _ _ _ (by simp) tx.outputs) layers
  rw [fundingMinted, fundingMinted, List.filterMap_flatMap, List.filterMap_flatMap,
    List.flatMap_def, List.flatMap_def, hfunding]

theorem WellFormed.relabel {layer : ℕ} {tx : PrepTransaction} (h : WellFormed fee layer tx)
    (spent : List (ℕ × ℕ × ℕ)) (t : ℕ) : WellFormed fee layer (relabelTx spent layer t tx) where
  inputs_ne_nil := h.inputs_ne_nil
  actionCount_le := by simpa [PrepTransaction.actionCount, relabelTx] using h.actionCount_le
  balanced := by
    have hvalues : (relabelTx spent layer t tx).outputs.map PrepOutput.value =
        tx.outputs.map PrepOutput.value := map_mapIdx _ _ _ (by simp) tx.outputs
    rw [hvalues]
    exact h.balanced
  before := h.before

/-! ## The plan -/

/-- The spent prior notes are the spent outputs. -/
theorem mem_spentOutputs {l t o : ℕ} :
    (l, t, o) ∈ spentOutputs layers ↔ ∃ value, .prior l t o value ∈ spentInputs layers := by
  simp only [spentOutputs, List.mem_filterMap]
  constructor
  · rintro ⟨input, hinput, hcoordinates⟩
    cases input <;> cases hcoordinates
    exact ⟨_, hinput⟩
  · rintro ⟨value, hinput⟩
    exact ⟨_, hinput, rfl⟩

theorem mem_spentInputs {note : PrepInput} :
    note ∈ spentInputs layers ↔
      ∃ (layer : ℕ) (txs : List PrepTransaction), layers[layer]? = some txs ∧
        ∃ tx ∈ txs, note ∈ tx.inputs := by
  simp only [spentInputs, List.mem_flatMap, List.mem_flatten]
  constructor
  · rintro ⟨tx, ⟨txs, htxs, htx⟩, hnote⟩
    obtain ⟨layer, hlayer⟩ := List.mem_iff_getElem?.1 htxs
    exact ⟨layer, txs, hlayer, tx, htx, hnote⟩
  · rintro ⟨layer, txs, hlayer, tx, htx, hnote⟩
    exact ⟨tx, ⟨txs, List.mem_of_getElem? hlayer, htx⟩, hnote⟩

theorem Sound.spent_minted (h : Sound wallet fee layers pool minted) {note : PrepInput}
    (hmem : note ∈ spentInputs layers) : note ∈ wallet ∨ note ∈ feeders layers := by
  simpa [book] using h.covers.mem_minted (c := note) (by simpa [book] using hmem)

/-- A spent prior note is an intermediate output of its value. -/
theorem Sound.outputAt_of_spent (hwallet : IsWallet wallet)
    (h : Sound wallet fee layers pool minted) {l t o value : ℕ}
    (hmem : .prior l t o value ∈ spentInputs layers) :
    outputAt layers l t o = some (.intermediate value) := by
  rcases h.spent_minted hmem with hmem | hmem
  · obtain ⟨index, v, heq⟩ := hwallet.isWallet _ hmem
    cases heq
  · obtain ⟨l', t', o', v, heq, hout⟩ := mem_feeders.1 hmem
    cases heq
    exact hout

theorem isWallet_walletNotes (available : List ℕ) (used : List Bool) :
    IsWallet (walletNotes available used) where
  isWallet note hmem := by
    obtain ⟨index, value, rfl, -, -⟩ := mem_walletNotes.1 hmem
    exact ⟨index, value, rfl⟩
  nodup := nodup_walletNotes available used

theorem Sound.wellFormed_relabel (h : Sound wallet fee layers pool minted) {tx : PrepTransaction}
    (hmem : tx ∈ (relabel layers).flatten) : ∃ layer, WellFormed fee layer tx := by
  obtain ⟨txs, htxs, hmem⟩ := List.mem_flatten.1 hmem
  obtain ⟨layer, hlayer⟩ := List.mem_iff_getElem?.1 htxs
  obtain ⟨old, t, hold, tx₀, htx₀, rfl⟩ := mem_relabel hlayer hmem
  exact ⟨layer, (h.wellFormed layer old hold tx₀ htx₀).relabel _ _⟩

theorem Sound.nodup_spentInputs (hwallet : IsWallet wallet)
    (h : Sound wallet fee layers pool minted) : ((spentInputs layers).map PrepInput.ref).Nodup := by
  simpa [book] using h.covers.nodup_spent PrepInput.ref (nodup_minted hwallet layers)

/-- A spent wallet note is a note of the wallet that is not used directly. -/
theorem Sound.walletNote_of_spent {available : List ℕ} {used : List Bool} {index value : ℕ}
    (h : Sound (walletNotes available used) fee layers pool minted)
    (hmem : .wallet index value ∈ spentInputs layers) :
    available[index]? = some value ∧ used[index]? = some false := by
  rcases h.spent_minted hmem with hmem | hmem
  · obtain ⟨i, v, heq, hvalue, hfree⟩ := mem_walletNotes.1 hmem
    cases heq
    exact ⟨hvalue, hfree⟩
  · obtain ⟨l, t, o, v, heq, -⟩ := mem_feeders.1 hmem
    cases heq

/-- A prior input of a relabelled layer names an intermediate output of an earlier one. -/
theorem Sound.prior_relabel (hwallet : IsWallet wallet) (h : Sound wallet fee layers pool minted)
    {layer : ℕ} {txs : List PrepTransaction} (hlayer : (relabel layers)[layer]? = some txs)
    {tx : PrepTransaction} (htx : tx ∈ txs) {l t o value : ℕ}
    (hnote : .prior l t o value ∈ tx.inputs) :
    l < layer ∧ outputAt (relabel layers) l t o = some (.intermediate value) := by
  obtain ⟨old, ti, hold, tx₀, htx₀, rfl⟩ := mem_relabel hlayer htx
  have hspent : .prior l t o value ∈ spentInputs layers :=
    mem_spentInputs.2 ⟨layer, old, hold, tx₀, htx₀, hnote⟩
  refine ⟨(h.wellFormed layer old hold tx₀ htx₀).before _ hnote, ?_⟩
  rw [outputAt_relabel, h.outputAt_of_spent hwallet hspent, Option.map_some, relabelOutput,
    if_pos (mem_spentOutputs.2 ⟨value, hspent⟩)]

/-- What is labelled intermediate after the relabelling is spent, with its value. -/
theorem Sound.spent_of_intermediate (hwallet : IsWallet wallet)
    (h : Sound wallet fee layers pool minted) {l t o value : ℕ}
    (hout : outputAt (relabel layers) l t o = some (.intermediate value)) :
    .prior l t o value ∈ spentInputs layers := by
  rw [outputAt_relabel, Option.map_eq_some_iff] at hout
  obtain ⟨out, hout, hlabel⟩ := hout
  cases out with
  | funding v => cases hlabel
  | change v => cases hlabel
  | intermediate v =>
    simp only [relabelOutput] at hlabel
    split_ifs at hlabel with hmem
    cases hlabel
    obtain ⟨v, hspent⟩ := mem_spentOutputs.1 hmem
    have heq := h.outputAt_of_spent hwallet hspent
    rw [hout] at heq
    cases heq
    exact hspent

/-- A relabelled output that is spent is labelled intermediate. -/
theorem Sound.intermediate_of_spent (hwallet : IsWallet wallet)
    (h : Sound wallet fee layers pool minted) {l t o : ℕ} {out : PrepOutput}
    (hout : outputAt (relabel layers) l t o = some out)
    (hmem : .output l t o ∈ (spentInputs layers).map PrepInput.ref) :
    ∃ value, out = .intermediate value := by
  obtain ⟨input, hinput, href⟩ := List.mem_map.1 hmem
  cases input with
  | wallet index value => cases href
  | prior l' t' o' v =>
    cases href
    rw [outputAt_relabel, h.outputAt_of_spent hwallet hinput, Option.map_some, relabelOutput,
      if_pos (mem_spentOutputs.2 ⟨v, hinput⟩)] at hout
    exact ⟨v, (Option.some.inj hout).symm⟩

/-- A note that the direct pass has taken is not spent by the layers. -/
theorem Sound.direct_unspent {available targets : List ℕ} {scan : DirectScan}
    (hscan : scan.Valid available targets)
    (h : Sound (walletNotes available scan.used) fee layers pool minted) {note : ℕ × ℕ}
    (hnote : note ∈ scan.direct) : .wallet note.1 ∉ (spentInputs layers).map PrepInput.ref := by
  intro hmem
  obtain ⟨input, hinput, href⟩ := List.mem_map.1 hmem
  cases input with
  | prior l t o v => cases href
  | wallet index value =>
    cases href
    have hused := (hscan.used_iff note.1).2 (List.mem_map_of_mem hnote)
    rw [(h.walletNote_of_spent hinput).2] at hused
    cases hused

/-- The relabelled form of sound layers, with the direct notes of a valid pass, is a sound
plan. -/
theorem soundPlan_of_sound {available funding : List ℕ} {scan : DirectScan}
    (hscan : scan.Valid available (funding.filter (0 < ·) : List ℕ))
    (h : Sound (walletNotes available scan.used) fee layers pool scan.kept) :
    SoundPlan available funding fee { layers := relabel layers, directFunding := scan.direct } := by
  have hwallet := isWallet_walletNotes available scan.used
  have hnodup := h.nodup_spentInputs hwallet
  constructor
  · exact fun tx hmem => (h.wellFormed_relabel hmem).choose_spec.inputs_ne_nil
  · exact fun tx hmem => (h.wellFormed_relabel hmem).choose_spec.actionCount_le
  · exact fun tx hmem => (h.wellFormed_relabel hmem).choose_spec.balanced
  · intro tx hmem index value hnote
    have hspent : .wallet index value ∈ spentInputs (relabel layers) :=
      List.mem_flatMap.2 ⟨tx, hmem, hnote⟩
    rw [spentInputs_relabel] at hspent
    exact (h.walletNote_of_spent hspent).1
  · exact fun layer txs hlayer tx hmem l t o value => h.prior_relabel hwallet hlayer hmem
  · simpa using hnodup
  · exact hscan.carried
  · exact hscan.nodup
  · intro note hmem
    rw [spentInputs_relabel]
    exact h.direct_unspent hscan hmem
  · intro l t o value hout
    have hspent := h.spent_of_intermediate hwallet hout
    rw [spentInputs_relabel]
    refine ⟨List.count_eq_one_of_mem hnodup (List.mem_map.2 ⟨_, hspent, rfl⟩), ?_⟩
    rw [← spentInputs_relabel] at hspent
    obtain ⟨layer, txs, hlayer, tx, htx, hnote⟩ := mem_spentInputs.1 hspent
    exact ⟨layer, (h.prior_relabel hwallet hlayer htx hnote).1, txs, hlayer, tx, htx, hnote⟩
  · intro l t o out hout hfinal hmem
    rw [spentInputs_relabel] at hmem
    obtain ⟨value, hvalue⟩ := h.intermediate_of_spent hwallet hout hmem
    exact hfinal value hvalue
  · have hminted : fundingMinted (relabel layers) = scan.kept := by
      rw [fundingMinted_relabel, h.funding]
    rw [← Multiset.coe_eq_coe, ← hscan.funding, ← hminted]
    rfl

theorem planPreparationGreedy_ok {available funding : List Zatoshis} {feePerTx : Zatoshis}
    {plan : PreparationPlan} (h : planPreparationGreedy S available funding feePerTx = .ok plan) :
    let scan := extractDirectFunding (available.map Zatoshis.val) (fundingTargets funding)
    let current := walletNotes (available.map Zatoshis.val) scan.used
    (scan.kept = [] ∧ plan = ⟨[], scan.direct⟩) ∨
      scan.kept ≠ [] ∧ ∃ layers, greedyLayers S feePerTx.val scan.kept current = .ok layers ∧
        plan = ⟨relabel (mergeResidual S feePerTx.val layers), scan.direct⟩ := by
  unfold planPreparationGreedy at h
  rcases hv : validateTotals available funding with e | u
  · rw [hv] at h
    cases h
  · rw [hv] at h
    simp only [bind, Except.bind, pure, Except.pure] at h
    split_ifs at h with hkept
    · exact .inl ⟨hkept, (Except.ok.inj h).symm⟩
    · split at h
      · cases h
      · rename_i layers hlayers
        exact .inr ⟨hkept, layers, hlayers, (Except.ok.inj h).symm⟩

theorem planPreparationViaConsolidation_ok {available funding : List Zatoshis}
    {feePerTx : Zatoshis} {plan : PreparationPlan}
    (h : planPreparationViaConsolidation S available funding feePerTx = .ok plan) :
    let scan := extractDirectFunding (available.map Zatoshis.val) (fundingTargets funding)
    let current := (walletNotes (available.map Zatoshis.val) scan.used).filter fun n => 0 < n.value
    (scan.kept = [] ∧ plan = ⟨[], scan.direct⟩) ∨
      scan.kept ≠ [] ∧ ∃ layers, consolidatedLayers S feePerTx.val scan.kept current = .ok layers ∧
        plan = ⟨relabel layers, scan.direct⟩ := by
  unfold planPreparationViaConsolidation at h
  rcases hv : validateTotals available funding with e | u
  · rw [hv] at h
    cases h
  · rw [hv] at h
    simp only [bind, Except.bind, pure, Except.pure] at h
    split_ifs at h with hkept
    · exact .inl ⟨hkept, (Except.ok.inj h).symm⟩
    · split at h
      · cases h
      · rename_i layers hlayers
        exact .inr ⟨hkept, layers, hlayers, (Except.ok.inj h).symm⟩

theorem walletNotes_before {available : List ℕ} {used : List Bool} {note : PrepInput}
    (h : note ∈ walletNotes available used) (layer : ℕ) : note.Before layer := by
  obtain ⟨index, value, rfl, -, -⟩ := mem_walletNotes.1 h
  trivial

theorem extractDirectFunding_targets (available : List ℕ) (funding : List Zatoshis) :
    (extractDirectFunding available (fundingTargets funding)).Valid available
      ((funding.map Zatoshis.val).filter (0 < ·) : List ℕ) := by
  have hvalid := extractDirectFunding_valid available (fundingTargets funding)
  rwa [fundingTargets, Multiset.coe_eq_coe.2 (perm_sortDescending _)] at hvalid

/-- What the exact-match pass leaves to mint is among what was requested. -/
theorem kept_le (available : List ℕ) (funding : List Zatoshis) :
    ((extractDirectFunding available (fundingTargets funding)).kept : Multiset ℕ) ≤
      (funding.map Zatoshis.val : List ℕ) :=
  le_trans ((extractDirectFunding_targets available funding).funding ▸ Multiset.le_add_right _ _)
    (Multiset.coe_le.2 List.filter_sublist.subperm)

/-- Fees for as many transactions as requested notes leave every split in range. -/
theorem splitFits_of_funding (available : List ℕ) {funding : List Zatoshis}
    (hfit : (funding.map Zatoshis.val).sum + fee * funding.length < u64Size)
    (hne : (extractDirectFunding available (fundingTargets funding)).kept ≠ []) :
    SplitFits (extractDirectFunding available (fundingTargets funding)).kept fee := by
  have hle := kept_le available funding
  obtain ⟨rest, hrest⟩ := Multiset.le_iff_exists_add.1 hle
  have hsum := congrArg Multiset.sum hrest
  have hlen := (subtreeCost_fst_le fee hne).1.trans (Multiset.card_le_card hle)
  have hfees := Nat.mul_le_mul_left fee hlen
  simp only [Multiset.sum_coe, Multiset.sum_add, Multiset.coe_card, List.length_map] at hsum hfees
  unfold SplitFits
  omega

theorem length_flatten_relabel (layers : Layers) :
    (relabel layers).flatten.length = layers.flatten.length := by
  have hmap := congrArg List.length
    (map_relabel PrepTransaction.inputs (fun _ _ _ _ => rfl) layers)
  rwa [List.length_map, List.length_map] at hmap

/-- Every plan of the planner comes from sound layers and the exact-match pass, provided a split
of as many transactions as the plan has stays in range. -/
theorem planPreparation_ledger {available funding : List Zatoshis} {feePerTx : Zatoshis}
    {plan : PreparationPlan} (h : planPreparation S available funding feePerTx = .ok plan) :
    let scan := extractDirectFunding (available.map Zatoshis.val) (fundingTargets funding)
    (scan.kept ≠ [] → (subtreeCost scan.kept feePerTx.val).1 ≤ plan.transactions.length →
      SplitFits scan.kept feePerTx.val) →
    ∃ layers, plan = { layers := relabel layers, directFunding := scan.direct } ∧
      Sound (walletNotes (available.map Zatoshis.val) scan.used) feePerTx.val layers 0
        scan.kept := by
  intro scan hfit
  have hempty : scan.kept = [] → Sound (walletNotes (available.map Zatoshis.val) scan.used)
      feePerTx.val [] 0 scan.kept := fun hkept => by
    rw [hkept]
    exact (sound_nil _ _).mono (Multiset.zero_le _)
  unfold planPreparation at h
  split at h
  · -- the fallback after insufficient funds
    obtain ⟨hkept, rfl⟩ | ⟨hkept, layers, hlayers, rfl⟩ := planPreparationViaConsolidation_ok h
    · exact ⟨[], rfl, hempty hkept⟩
    · refine ⟨layers, rfl, consolidatedLayers_sound ?_ ?_ ?_ hlayers⟩
      · rw [← length_flatten_relabel]
        exact hfit hkept
      · exact fun note hmem => walletNotes_before (List.mem_of_mem_filter hmem) 0
      · exact Multiset.coe_le.2 List.filter_sublist.subperm
  · obtain ⟨hkept, rfl⟩ | ⟨hkept, layers, hlayers, rfl⟩ := planPreparationGreedy_ok h
    · exact ⟨[], rfl, hempty hkept⟩
    · refine ⟨_, rfl, mergeResidual_sound (isWallet_walletNotes _ _) (greedyLayers_sound ?_
        (fun note hmem => walletNotes_before hmem 0) hlayers)⟩
      intro hcount
      apply hfit hkept
      rw [PreparationPlan.transactions, length_flatten_relabel]
      exact hcount.trans (length_flatten_mergeResidual_ge S feePerTx.val layers)

/-- The plans of `planPreparation` are sound. -/
theorem planPreparation_sound {available funding : List Zatoshis} {feePerTx : Zatoshis}
    {plan : PreparationPlan}
    (hfit : (funding.map Zatoshis.val).sum + feePerTx.val * funding.length < u64Size)
    (h : planPreparation S available funding feePerTx = .ok plan) :
    SoundPlan (available.map Zatoshis.val) (funding.map Zatoshis.val) feePerTx.val plan := by
  obtain ⟨layers, rfl, hsound⟩ := planPreparation_ledger h fun hne _ =>
    splitFits_of_funding _ hfit hne
  exact soundPlan_of_sound (extractDirectFunding_targets _ _) hsound

/-- Two notes combined to mint one funding value, beside an exact match. -/
theorem planPreparation_sound_combined :
    SoundPlan [100, 100, 100] [100, 150] 10
      { layers := [[⟨[.wallet 1 100, .wallet 2 100], [.intermediate 190]⟩],
          [⟨[.prior 0 0 0 190], [.funding 150, .change 30]⟩]],
        directFunding := [(0, 100)] } :=
  @planPreparation_sound (.ofInsertion PrepInput.value)
    [⟨100, by decide⟩, ⟨100, by decide⟩, ⟨100, by decide⟩] [⟨100, by decide⟩, ⟨150, by decide⟩]
    ⟨10, by decide⟩ _ (by decide) (by decide +kernel)

/-! ## Representable values -/

theorem validateTotals_ok {available funding : List Zatoshis} {u : Unit}
    (h : validateTotals available funding = .ok u) :
    (available.map Zatoshis.val).sum ≤ maxMoney ∧ (funding.map Zatoshis.val).sum ≤ maxMoney := by
  unfold validateTotals at h
  rcases ha : Zatoshis.sum available with _ | a
  · simp [ha] at h
  · rcases hf : Zatoshis.sum funding with _ | f
    · simp [ha, hf] at h
    · rw [Zatoshis.sum_eq, Zatoshis.ofNat?_eq_some] at ha hf
      exact ⟨ha ▸ a.le_maxMoney, hf ▸ f.le_maxMoney⟩

theorem planPreparation_totals {available funding : List Zatoshis} {feePerTx : Zatoshis}
    {plan : PreparationPlan} (h : planPreparation S available funding feePerTx = .ok plan) :
    (available.map Zatoshis.val).sum ≤ maxMoney ∧ (funding.map Zatoshis.val).sum ≤ maxMoney := by
  rcases hv : validateTotals available funding with e | u
  · simp [planPreparation, planPreparationGreedy, planPreparationViaConsolidation, hv, bind,
      Except.bind] at h
    split at h <;> cases h
  · exact validateTotals_ok hv

/-- The wallet of a plan is worth at most the available notes. -/
theorem sum_walletNotes_le {available : List ℕ} {used : List Bool}
    (hlen : used.length = available.length) :
    ((walletNotes available used).map PrepInput.value).sum ≤ available.sum := by
  have hfrom : ∀ (notes : List (ℕ × Bool)) (first : ℕ),
      (((notes.zipIdx first).filterMap fun entry =>
        if entry.1.2 then none
        else some (PrepInput.wallet entry.2 entry.1.1)).map PrepInput.value).sum ≤
        (notes.map Prod.fst).sum := by
    intro notes
    induction notes with
    | nil => simp
    | cons note rest ih =>
      intro first
      have hrest := ih (first + 1)
      obtain ⟨value, taken⟩ := note
      rw [List.zipIdx_cons, List.filterMap_cons, List.map_cons, List.sum_cons]
      cases taken
      · exact Nat.add_le_add_left hrest value
      · exact hrest.trans (Nat.le_add_left _ _)
  refine (hfrom (available.zip used) 0).trans (le_of_eq ?_)
  rw [List.map_fst_zip hlen.ge]

/-- The transactions of relabelled sound layers handle no more than the available value. -/
theorem Sound.relabel_le {available : List ℕ} {used : List Bool}
    (hlen : used.length = available.length)
    (h : Sound (walletNotes available used) fee layers pool minted) :
    ∀ tx ∈ (relabel layers).flatten, (tx.inputs.map PrepInput.value).sum ≤ available.sum ∧
      (tx.outputs.map PrepOutput.value).sum ≤ available.sum := by
  intro tx htx
  obtain ⟨txs, htxs, htx⟩ := List.mem_flatten.1 htx
  obtain ⟨layer, hlayer⟩ := List.mem_iff_getElem?.1 htxs
  obtain ⟨old, t, hold, tx₀, htx₀, rfl⟩ := mem_relabel hlayer htx
  have hle := h.inputs_le tx₀ (List.mem_flatten.2 ⟨old, List.mem_of_getElem? hold, htx₀⟩)
  have hbalance := ((h.wellFormed layer old hold tx₀ htx₀).relabel (spentOutputs layers)
    t).balanced
  have hinputs : ((relabelTx (spentOutputs layers) layer t tx₀).inputs.map PrepInput.value).sum ≤
      available.sum := by
    simp only [Multiset.map_coe, Multiset.sum_coe] at hle
    exact hle.trans (sum_walletNotes_le hlen)
  exact ⟨hinputs, by omega⟩

/-- Every value the planner converts with `zat` is an amount. -/
theorem planPreparation_value_le {available funding : List Zatoshis} {feePerTx : Zatoshis}
    {plan : PreparationPlan}
    (hfit : (funding.map Zatoshis.val).sum + feePerTx.val * funding.length < u64Size)
    (h : planPreparation S available funding feePerTx = .ok plan) :
    ∀ tx ∈ plan.transactions, (tx.inputs.map PrepInput.value).sum ≤ maxMoney ∧
      (tx.outputs.map PrepOutput.value).sum ≤ maxMoney := by
  obtain ⟨layers, rfl, hsound⟩ := planPreparation_ledger h fun hne _ =>
    splitFits_of_funding _ hfit hne
  have htotals := (planPreparation_totals h).1
  intro tx htx
  obtain ⟨hinputs, houtputs⟩ := hsound.relabel_le
    (extractDirectFunding_valid _ _).length_used tx htx
  exact ⟨hinputs.trans htotals, houtputs.trans htotals⟩

/-- A plan whose funding notes and fees stay in the `u64` range is sound, and handles no more than
the available value. -/
theorem planPreparation_sound_of_committed {available funding : List Zatoshis}
    {feePerTx : Zatoshis} {plan : PreparationPlan}
    (hcommitted : (funding.map Zatoshis.val).sum + feePerTx.val * plan.transactionCount < u64Size)
    (h : planPreparation S available funding feePerTx = .ok plan) :
    SoundPlan (available.map Zatoshis.val) (funding.map Zatoshis.val) feePerTx.val plan ∧
      ∀ tx ∈ plan.transactions,
        (tx.inputs.map PrepInput.value).sum ≤ (available.map Zatoshis.val).sum := by
  have hcount : plan.transactions.length = plan.transactionCount := by
    simp [PreparationPlan.transactions, PreparationPlan.transactionCount]
  obtain ⟨layers, rfl, hsound⟩ := planPreparation_ledger h fun hne hle => by
    have hfees := Nat.mul_le_mul_left feePerTx.val (hcount ▸ hle)
    obtain ⟨rest, hrest⟩ := Multiset.le_iff_exists_add.1
      (kept_le (available.map Zatoshis.val) funding)
    have hsum := congrArg Multiset.sum hrest
    simp only [Multiset.sum_coe, Multiset.sum_add] at hsum
    unfold SplitFits
    omega
  exact ⟨soundPlan_of_sound (extractDirectFunding_targets _ _) hsound, fun tx htx =>
    (hsound.relabel_le (extractDirectFunding_valid _ _).length_used tx htx).1⟩

end VizorWallet.Migration
