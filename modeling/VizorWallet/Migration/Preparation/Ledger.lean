import VizorWallet.Library.Book
import VizorWallet.Migration.Preparation.Split

/-!
# The ledger of a plan under construction

The layers of a plan read as a book of account: the wallet notes and the feeders are minted, the
inputs are spent.  `Sound` says that the transactions so far respect the action budget and the
value balance, spend only what is minted in an earlier layer, and leave a pool to spend; pushing a
transaction keeps it.

## Main definitions

* `PrepInput.ref`, `outputAt` — which note an input names, and which output.
* `WellFormed` — what holds of one transaction.
* `Sound` — what holds of the layers so far.
-/

namespace VizorWallet.Migration

/-- The name of a note: a wallet note, or an output of an earlier layer. -/
inductive NoteRef
  | wallet (index : ℕ)
  | output (layer transaction output : ℕ)
  deriving DecidableEq, Repr

def PrepInput.ref : PrepInput → NoteRef
  | wallet index _ => .wallet index
  | prior layer transaction output _ => .output layer transaction output

/-- The output at given coordinates. -/
def outputAt (layers : Layers) (layer transaction output : ℕ) : Option PrepOutput :=
  ((layers[layer]?.getD [])[transaction]?).bind fun tx => tx.outputs[output]?

/-- The funding values minted so far. -/
def fundingMinted (layers : Layers) : Multiset ℕ :=
  (layers.flatten.flatMap PrepTransaction.outputs).filterMap PrepOutput.funding?

/-- Wallet notes are there from the start, an output only in the layers after its own. -/
def PrepInput.Before (layer : ℕ) : PrepInput → Prop
  | wallet _ _ => True
  | prior l _ _ _ => l < layer

/-! ## Feeders and their coordinates -/

theorem mem_txFeeders {layer transaction : ℕ} {outputs : List PrepOutput} {note : PrepInput} :
    note ∈ txFeeders layer transaction outputs ↔
      ∃ oi v, outputs[oi]? = some (.intermediate v) ∧ note = .prior layer transaction oi v := by
  simp only [txFeeders, List.mem_filterMap, Prod.exists, List.mk_mem_zipIdx_iff_getElem?]
  constructor
  · rintro ⟨out, oi, hout, hfeeder⟩
    cases out <;> simp only [PrepOutput.feeder?, Option.some.injEq, reduceCtorEq] at hfeeder
    exact ⟨oi, _, hout, hfeeder.symm⟩
  · rintro ⟨oi, v, hout, rfl⟩
    exact ⟨_, oi, hout, rfl⟩

theorem mem_layerFeeders {layer first : ℕ} {txs : List PrepTransaction} {note : PrepInput} :
    note ∈ layerFeeders layer first txs ↔
      ∃ ti tx, first ≤ ti ∧ txs[ti - first]? = some tx ∧
        note ∈ txFeeders layer ti tx.outputs := by
  simp only [layerFeeders, List.mem_flatMap, Prod.exists,
    List.mk_mem_zipIdx_iff_le_and_getElem?_sub]
  grind

theorem mem_feedersFrom {first : ℕ} {layers : Layers} {note : PrepInput} :
    note ∈ feedersFrom first layers ↔
      ∃ li txs, first ≤ li ∧ layers[li - first]? = some txs ∧ note ∈ layerFeeders li 0 txs := by
  simp only [feedersFrom, List.mem_flatMap, Prod.exists,
    List.mk_mem_zipIdx_iff_le_and_getElem?_sub]
  grind

/-- The feeders are the intermediate outputs. -/
theorem mem_feeders {layers : Layers} {note : PrepInput} :
    note ∈ feeders layers ↔
      ∃ l t o v, note = .prior l t o v ∧ outputAt layers l t o = some (.intermediate v) := by
  simp only [feeders, mem_feedersFrom, mem_layerFeeders, mem_txFeeders, outputAt]
  constructor
  · rintro ⟨l, txs, -, htxs, t, tx, -, htx, o, v, hout, rfl⟩
    exact ⟨l, t, o, v, rfl, by simp_all⟩
  · rintro ⟨l, t, o, v, rfl, hout⟩
    rcases htxs : layers[l]? with _ | txs
    · simp [htxs] at hout
    · rw [htxs, Option.getD_some, Option.bind_eq_some_iff] at hout
      obtain ⟨tx, htx, hout⟩ := hout
      exact ⟨l, txs, by omega, htxs, t, tx, by omega, htx, o, v, hout, rfl⟩

/-- The positions in a list are in increasing order. -/
theorem pairwise_zipIdx {α : Type*} (l : List α) (first : ℕ) :
    (l.zipIdx first).Pairwise fun a b => a.2 < b.2 := by
  have hrange : ((l.zipIdx first).map Prod.snd).Pairwise (· < ·) := by
    rw [List.zipIdx_map_snd]
    exact List.pairwise_lt_range'
  exact List.pairwise_map.1 hrange

/-- No two feeders have the same name. -/
theorem nodup_feeders (layers : Layers) : ((feeders layers).map PrepInput.ref).Nodup := by
  rw [List.Nodup, List.pairwise_map, feeders, feedersFrom, List.pairwise_flatMap]
  constructor
  · rintro ⟨txs, li⟩ -
    simp only [layerFeeders, List.pairwise_flatMap]
    constructor
    · rintro ⟨tx, ti⟩ -
      refine (pairwise_zipIdx tx.outputs 0).filterMap _ ?_
      rintro ⟨out, oi⟩ ⟨out', oi'⟩ hlt note hnote note' hnote'
      cases out <;> cases out' <;> simp_all [PrepOutput.feeder?]
      subst hnote hnote'
      simp [PrepInput.ref]
      omega
    · refine (pairwise_zipIdx txs 0).imp ?_
      rintro ⟨tx, ti⟩ ⟨tx', ti'⟩ hlt note hnote note' hnote'
      obtain ⟨o, v, -, rfl⟩ := mem_txFeeders.1 hnote
      obtain ⟨o', v', -, rfl⟩ := mem_txFeeders.1 hnote'
      simp only [PrepInput.ref, ne_eq, NoteRef.output.injEq, not_and]
      omega
  · refine (pairwise_zipIdx layers 0).imp ?_
    rintro ⟨txs, li⟩ ⟨txs', li'⟩ hlt note hnote note' hnote'
    obtain ⟨t, tx, -, -, hmem⟩ := mem_layerFeeders.1 hnote
    obtain ⟨o, v, -, rfl⟩ := mem_txFeeders.1 hmem
    obtain ⟨t', tx', -, -, hmem'⟩ := mem_layerFeeders.1 hnote'
    obtain ⟨o', v', -, rfl⟩ := mem_txFeeders.1 hmem'
    simp only [PrepInput.ref, ne_eq, NoteRef.output.injEq, not_and]
    omega

/-! ## Pushing a transaction -/

/-- Append a transaction to an existing layer. -/
def pushTransaction (layers : Layers) (layer : ℕ) (tx : PrepTransaction) : Layers :=
  layers.modify layer (· ++ [tx])

theorem layerFeeders_append (layer first : ℕ) (txs : List PrepTransaction)
    (tx : PrepTransaction) :
    layerFeeders layer first (txs ++ [tx]) =
      layerFeeders layer first txs ++ txFeeders layer (first + txs.length) tx.outputs := by
  simp [layerFeeders, List.zipIdx_append]

theorem feedersFrom_push (first : ℕ) {layers : Layers} {layer : ℕ} (tx : PrepTransaction)
    (h : layer < layers.length) :
    (feedersFrom first (pushTransaction layers layer tx) : Multiset PrepInput) =
      feedersFrom first layers +
        txFeeders (first + layer) (layerLength layers layer) tx.outputs := by
  induction layers generalizing first layer with
  | nil => simp at h
  | cons txs rest ih =>
    rcases layer with _ | layer
    · simp only [feedersFrom, pushTransaction, List.modify_zero_cons, List.zipIdx_cons,
        List.flatMap_cons, layerFeeders_append, layerLength, List.getElem?_cons_zero,
        Option.getD_some, Nat.zero_add, Nat.add_zero, ← Multiset.coe_add]
      exact add_right_comm _ _ _
    · have hlt : layer < rest.length := by simpa using h
      have hrest := ih (first + 1) hlt
      simp only [feedersFrom, pushTransaction, List.modify_succ_cons, List.zipIdx_cons,
        List.flatMap_cons, layerLength, List.getElem?_cons_succ, ← Multiset.coe_add] at hrest ⊢
      rw [hrest, ← add_assoc, show first + 1 + layer = first + (layer + 1) by omega]

theorem feeders_push {layers : Layers} {layer : ℕ} (tx : PrepTransaction)
    (h : layer < layers.length) :
    (feeders (pushTransaction layers layer tx) : Multiset PrepInput) =
      feeders layers + txFeeders layer (layerLength layers layer) tx.outputs := by
  simpa [feeders] using feedersFrom_push 0 tx h

/-- The transactions of a plan under construction, in some order. -/
theorem flatten_push {layers : Layers} {layer : ℕ} (tx : PrepTransaction)
    (h : layer < layers.length) :
    (pushTransaction layers layer tx).flatten.Perm (tx :: layers.flatten) := by
  induction layers generalizing layer with
  | nil => simp at h
  | cons txs rest ih =>
    rcases layer with _ | layer
    · simp [pushTransaction]
    · have hlt : layer < rest.length := by simpa using h
      have hrest := ih hlt
      simp only [pushTransaction, List.modify_succ_cons, List.flatten_cons] at hrest ⊢
      exact (hrest.append_left txs).trans List.perm_middle

theorem spentInputs_push {layers : Layers} {layer : ℕ} (tx : PrepTransaction)
    (h : layer < layers.length) :
    (spentInputs (pushTransaction layers layer tx) : Multiset PrepInput) =
      spentInputs layers + tx.inputs := by
  have hperm := (flatten_push tx h).flatMap_right PrepTransaction.inputs
  rw [spentInputs, Multiset.coe_eq_coe.2 hperm, List.flatMap_cons, ← Multiset.coe_add, add_comm]
  rfl

theorem fundingMinted_push {layers : Layers} {layer : ℕ} (tx : PrepTransaction)
    (h : layer < layers.length) :
    fundingMinted (pushTransaction layers layer tx) =
      fundingMinted layers + tx.outputs.filterMap PrepOutput.funding? := by
  have hperm := ((flatten_push tx h).flatMap_right PrepTransaction.outputs).filterMap
    PrepOutput.funding?
  rw [fundingMinted, Multiset.coe_eq_coe.2 hperm, List.flatMap_cons, List.filterMap_append,
    ← Multiset.coe_add, add_comm]
  rfl

/-! ## Values -/

theorem map_value_txFeeders (layer transaction : ℕ) (outputs : List PrepOutput) :
    (txFeeders layer transaction outputs).map PrepInput.value =
      outputs.filterMap PrepOutput.intermediate? := by
  have hvalue : ∀ x : PrepOutput × ℕ, (x.1.feeder? layer transaction x.2).map PrepInput.value =
      x.1.intermediate? := by
    rintro ⟨out, oi⟩
    cases out <;> rfl
  rw [txFeeders, List.map_filterMap, List.filterMap_congr fun x _ => hvalue x]
  conv_rhs => rw [← List.zipIdx_map_fst 0 outputs, List.filterMap_map]
  rfl

/-- The feeders are worth the intermediate outputs. -/
theorem map_value_feeders (layers : Layers) :
    (feeders layers).map PrepInput.value =
      (layers.flatten.flatMap PrepTransaction.outputs).filterMap PrepOutput.intermediate? := by
  have hlayer : ∀ x : List PrepTransaction × ℕ, (layerFeeders x.2 0 x.1).map PrepInput.value =
      (x.1.flatMap PrepTransaction.outputs).filterMap PrepOutput.intermediate? := by
    rintro ⟨txs, li⟩
    conv_rhs => rw [← List.zipIdx_map_fst 0 txs]
    simp only [layerFeeders, List.map_flatMap, List.flatMap_map, List.filterMap_flatMap,
      map_value_txFeeders]
  conv_rhs => rw [← List.zipIdx_map_fst 0 layers, ← List.flatMap_id, List.flatMap_map]
  simp only [feeders, feedersFrom, List.map_flatMap, hlayer, List.flatMap_assoc,
    List.filterMap_flatMap, id]

/-- Outputs are worth their funding, intermediate and change values. -/
theorem sum_outputs (outputs : List PrepOutput) :
    (outputs.map PrepOutput.value).sum =
      (outputs.filterMap PrepOutput.funding?).sum +
        (outputs.filterMap PrepOutput.intermediate?).sum +
        (outputs.filterMap PrepOutput.change?).sum := by
  induction outputs with
  | nil => rfl
  | cons out rest ih =>
    cases out <;>
      simp only [List.map_cons, List.sum_cons, List.filterMap_cons, PrepOutput.funding?,
        PrepOutput.intermediate?, PrepOutput.change?, PrepOutput.value, ih] <;> omega

/-! ## Soundness of the layers so far -/

/-- What holds of a transaction of a given layer. -/
structure WellFormed (fee layer : ℕ) (tx : PrepTransaction) : Prop where
  inputs_ne_nil : tx.inputs ≠ []
  actionCount_le : tx.actionCount ≤ prepTxActions
  balanced : (tx.inputs.map PrepInput.value).sum = (tx.outputs.map PrepOutput.value).sum + fee
  before : ∀ note ∈ tx.inputs, note.Before layer

/-- The wallet notes and the feeders are minted, the inputs are spent. -/
def book (wallet : Multiset PrepInput) (layers : Layers) : Book PrepInput where
  minted := wallet + feeders layers
  spent := spentInputs layers

theorem book_append_empty (wallet : Multiset PrepInput) (layers : Layers) (n : ℕ) :
    book wallet (layers ++ List.replicate n []) = book wallet layers := by
  have hspent : spentInputs (layers ++ List.replicate n []) = spentInputs layers := by
    simp [spentInputs]
  have hfeeders : feeders (layers ++ List.replicate n []) = feeders layers := by
    simp only [feeders, feedersFrom, List.zipIdx_append, List.flatMap_append]
    rw [List.append_right_eq_self, List.flatMap_eq_nil_iff]
    rintro ⟨txs, li⟩ hmem
    have := List.eq_of_mem_replicate (List.fst_mem_of_mem_zipIdx hmem)
    simp_all [layerFeeders]
  rw [book, book, hspent, hfeeders]

theorem book_pushTransaction (wallet : Multiset PrepInput) {layers : Layers} {layer : ℕ}
    (tx : PrepTransaction) (h : layer < layers.length) :
    book wallet (pushTransaction layers layer tx) = (book wallet layers).post tx.inputs
      (txFeeders layer (layerLength layers layer) tx.outputs) := by
  rw [book, feeders_push tx h, spentInputs_push tx h, ← add_assoc]
  rfl

/-- The layers are well formed, can still spend `pool`, and have minted the funding values
`minted`. -/
structure Sound (wallet : Multiset PrepInput) (fee : ℕ) (layers : Layers)
    (pool : Multiset PrepInput) (minted : Multiset ℕ) : Prop where
  wellFormed : ∀ layer txs, layers[layer]? = some txs → ∀ tx ∈ txs, WellFormed fee layer tx
  covers : (book wallet layers).Covers pool
  funding : fundingMinted layers = minted
  inputs_le : ∀ tx ∈ layers.flatten,
    (tx.inputs.map PrepInput.value).sum ≤ (wallet.map PrepInput.value).sum

variable {wallet pool pool' : Multiset PrepInput} {fee layer : ℕ} {layers : Layers}
  {minted : Multiset ℕ} {tx : PrepTransaction}

/-- The inputs of all transactions pay for the outputs and the fees. -/
theorem sum_spentInputs (layers : Layers)
    (h : ∀ tx ∈ layers.flatten, (tx.inputs.map PrepInput.value).sum =
      (tx.outputs.map PrepOutput.value).sum + fee) :
    ((spentInputs layers).map PrepInput.value).sum =
      ((layers.flatten.flatMap PrepTransaction.outputs).map PrepOutput.value).sum +
        fee * layers.flatten.length := by
  have hsum : ∀ txs : List PrepTransaction,
      (∀ tx ∈ txs, (tx.inputs.map PrepInput.value).sum =
        (tx.outputs.map PrepOutput.value).sum + fee) →
      ((txs.flatMap PrepTransaction.inputs).map PrepInput.value).sum =
        ((txs.flatMap PrepTransaction.outputs).map PrepOutput.value).sum + fee * txs.length := by
    intro txs htxs
    induction txs with
    | nil => rfl
    | cons tx rest ih =>
      simp only [List.flatMap_cons, List.map_append, List.sum_append, List.length_cons,
        Nat.mul_succ, htxs tx List.mem_cons_self,
        ih fun t ht => htxs t (List.mem_cons_of_mem _ ht)]
      omega
  exact hsum _ h

theorem Sound.wellFormed_of_mem (h : Sound wallet fee layers pool minted)
    (htx : tx ∈ layers.flatten) : ∃ layer, WellFormed fee layer tx := by
  obtain ⟨txs, htxs, htx⟩ := List.mem_flatten.1 htx
  obtain ⟨layer, hlayer⟩ := List.mem_iff_getElem?.1 htxs
  exact ⟨layer, h.wellFormed layer txs hlayer tx htx⟩

/-- The pool is never worth more than the wallet. -/
theorem Sound.sum_pool_le (h : Sound wallet fee layers pool minted) :
    (pool.map PrepInput.value).sum ≤ (wallet.map PrepInput.value).sum := by
  have hpool := h.covers.sum_pool_le PrepInput.value
  have hspent := sum_spentInputs layers fun tx htx => (h.wellFormed_of_mem htx).choose_spec.balanced
  have hfeeders := congrArg List.sum (map_value_feeders layers)
  have houtputs := sum_outputs (layers.flatten.flatMap PrepTransaction.outputs)
  simp only [book, Multiset.map_add, Multiset.sum_add, Multiset.map_coe, Multiset.sum_coe] at hpool
  omega

theorem sound_nil (wallet : Multiset PrepInput) (fee : ℕ) : Sound wallet fee [] wallet 0 where
  wellFormed := by simp
  covers := by simp [Book.Covers, book, feeders, feedersFrom, spentInputs]
  funding := rfl
  inputs_le := by simp

theorem Sound.mono (h : Sound wallet fee layers pool minted) (hle : pool' ≤ pool) :
    Sound wallet fee layers pool' minted :=
  { h with covers := h.covers.mono hle }

/-- A well-formed transaction that spends from the pool may be pushed; its feeders join the
pool. -/
theorem Sound.push (h : Sound wallet fee layers (tx.inputs + pool) minted)
    (hlayer : layer < layers.length) (htx : WellFormed fee layer tx) :
    Sound wallet fee (pushTransaction layers layer tx)
      (pool + txFeeders layer (layerLength layers layer) tx.outputs)
      (minted + tx.outputs.filterMap PrepOutput.funding?) where
  wellFormed l txs hl t ht := by
    rw [pushTransaction, List.getElem?_modify, Option.map_eq_map, Option.map_eq_some_iff] at hl
    obtain ⟨old, hold, rfl⟩ := hl
    split_ifs at ht with heq
    · subst heq
      rcases List.mem_append.1 ht with ht | ht
      · exact h.wellFormed _ _ hold t ht
      · rw [List.mem_singleton.1 ht]
        exact htx
    · exact h.wellFormed _ _ hold t ht
  covers := by
    rw [book_pushTransaction wallet tx hlayer]
    exact h.covers.post _
  funding := by rw [fundingMinted_push tx hlayer, h.funding]
  inputs_le t ht := by
    rcases List.mem_cons.1 ((flatten_push tx hlayer).mem_iff.1 ht) with rfl | ht
    · have hpool := h.sum_pool_le
      simp only [Multiset.map_add, Multiset.sum_add, Multiset.map_coe, Multiset.sum_coe] at hpool
      omega
    · exact h.inputs_le t ht

/-- Empty layers at the end change nothing. -/
theorem Sound.append_empty (h : Sound wallet fee layers pool minted) (n : ℕ) :
    Sound wallet fee (layers ++ List.replicate n []) pool minted where
  wellFormed l txs hl := by
    rcases Nat.lt_or_ge l layers.length with hlt | hge
    · rw [List.getElem?_append_left hlt] at hl
      exact h.wellFormed l txs hl
    · rw [List.getElem?_append_right hge, List.getElem?_replicate] at hl
      split_ifs at hl
      rw [← Option.some.inj hl]
      simp
  covers := by
    rw [book_append_empty]
    exact h.covers
  funding := by
    rw [← h.funding]
    simp [fundingMinted]
  inputs_le t ht := h.inputs_le t (by simpa using ht)

theorem lt_length_ensureLayer (layers : Layers) (layer : ℕ) :
    layer < (ensureLayer layers layer).length := by
  simp only [ensureLayer, List.length_append, List.length_replicate]
  omega

theorem layerLength_ensureLayer (layers : Layers) (layer : ℕ) :
    layerLength (ensureLayer layers layer) layer = layerLength layers layer := by
  simp only [layerLength, ensureLayer]
  rcases Nat.lt_or_ge layer layers.length with hlt | hge
  · rw [List.getElem?_append_left hlt]
  · rw [List.getElem?_append_right hge, List.getElem?_replicate, List.getElem?_eq_none hge]
    split_ifs <;> rfl

theorem Sound.addTransaction (h : Sound wallet fee layers (tx.inputs + pool) minted)
    (htx : WellFormed fee layer tx) :
    Sound wallet fee (addTransaction layers layer tx)
      (pool + txFeeders layer (layerLength layers layer) tx.outputs)
      (minted + tx.outputs.filterMap PrepOutput.funding?) := by
  rw [← layerLength_ensureLayer]
  exact (h.append_empty _).push (lt_length_ensureLayer layers layer) htx

end VizorWallet.Migration
