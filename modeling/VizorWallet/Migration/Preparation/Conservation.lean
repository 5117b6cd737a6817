import VizorWallet.Migration.Preparation.Soundness

/-!
# Conservation of value

In a sound plan the feeders are exactly the prior inputs, so the wallet notes spent pay for the
funding notes, the change and the fees.
-/

namespace VizorWallet.Migration

/-- The wallet note an input spends, with its value. -/
def PrepInput.wallet? : PrepInput → Option (ℕ × ℕ)
  | wallet index value => some (index, value)
  | prior _ _ _ _ => none

/-- The wallet notes a plan spends. -/
def PreparationPlan.walletInputs (plan : PreparationPlan) : List (ℕ × ℕ) :=
  (spentInputs plan.layers).filterMap PrepInput.wallet?

/-- The wallet notes a plan spends or uses directly. -/
def PreparationPlan.walletUses (plan : PreparationPlan) : List (ℕ × ℕ) :=
  plan.directFunding ++ plan.walletInputs

variable {available funding : List ℕ} {fee : ℕ} {plan : PreparationPlan}

theorem mem_walletInputs {index value : ℕ} :
    (index, value) ∈ plan.walletInputs ↔ .wallet index value ∈ spentInputs plan.layers := by
  simp only [PreparationPlan.walletInputs, List.mem_filterMap]
  constructor
  · rintro ⟨input, hmem, hwallet⟩
    cases input <;> cases hwallet
    exact hmem
  · exact fun hmem => ⟨_, hmem, rfl⟩

/-- The prior inputs of a sound plan are its feeders. -/
theorem SoundPlan.priors_perm (h : SoundPlan available funding fee plan) :
    ((spentInputs plan.layers).filter fun input => input.wallet?.isNone).Perm
      (feeders plan.layers) := by
  have hspent : (spentInputs plan.layers).Nodup := List.Nodup.of_map _ h.spent_once
  have hfeeders : (feeders plan.layers).Nodup := List.Nodup.of_map _ (nodup_feeders plan.layers)
  refine (List.perm_ext_iff_of_nodup (hspent.filter _) hfeeders).2 fun input => ?_
  rw [List.mem_filter, mem_feeders]
  constructor
  · rintro ⟨hmem, hprior⟩
    cases input with
    | wallet index value => cases hprior
    | prior l t o value =>
      obtain ⟨layer, txs, hlayer, tx, htx, hin⟩ := mem_spentInputs.1 hmem
      exact ⟨l, t, o, value, rfl, (h.prior_carried layer txs hlayer tx htx l t o value hin).2⟩
  · rintro ⟨l, t, o, value, rfl, hout⟩
    obtain ⟨-, layer, -, txs, hlayer, tx, htx, hin⟩ := h.intermediate_spent l t o value hout
    exact ⟨mem_spentInputs.2 ⟨layer, txs, hlayer, tx, htx, hin⟩, rfl⟩

/-- Inputs are wallet notes or prior outputs. -/
theorem sum_inputs (inputs : List PrepInput) :
    (inputs.map PrepInput.value).sum =
      ((inputs.filterMap PrepInput.wallet?).map Prod.snd).sum +
        ((inputs.filter fun input => input.wallet?.isNone).map PrepInput.value).sum := by
  induction inputs with
  | nil => rfl
  | cons input rest ih =>
    rw [List.map_cons, List.sum_cons, ih]
    cases input with
    | wallet index value =>
      have hwallet : (.wallet index value :: rest).filterMap PrepInput.wallet? =
          (index, value) :: rest.filterMap PrepInput.wallet? := rfl
      have hprior : (.wallet index value :: rest).filter (fun input => input.wallet?.isNone) =
          rest.filter fun input => input.wallet?.isNone := rfl
      rw [hwallet, hprior, List.map_cons, List.sum_cons, PrepInput.value_wallet, add_assoc]
    | prior l t o value =>
      have hwallet : (.prior l t o value :: rest).filterMap PrepInput.wallet? =
          rest.filterMap PrepInput.wallet? := rfl
      have hprior : (.prior l t o value :: rest).filter (fun input => input.wallet?.isNone) =
          .prior l t o value :: rest.filter fun input => input.wallet?.isNone := rfl
      rw [hwallet, hprior, List.map_cons, List.sum_cons, PrepInput.value_prior, add_left_comm]

/-- The wallet notes spent pay for the funding notes, the change and the fees. -/
theorem SoundPlan.conservation (h : SoundPlan available funding fee plan) :
    (plan.walletInputs.map Prod.snd).sum =
      (plan.allOutputs.filterMap PrepOutput.funding?).sum + plan.residualNotes.sum +
        fee * plan.transactions.length := by
  have htotal := sum_spentInputs plan.layers h.balanced
  have hinputs := sum_inputs (spentInputs plan.layers)
  have houtputs := sum_outputs plan.allOutputs
  have hpriors := (h.priors_perm.map PrepInput.value).sum_eq
  rw [map_value_feeders] at hpriors
  simp only [PreparationPlan.walletInputs, PreparationPlan.residualNotes,
    PreparationPlan.allOutputs, PreparationPlan.transactions] at *
  omega

/-- No wallet note is used twice. -/
theorem SoundPlan.walletUses_nodup (h : SoundPlan available funding fee plan) :
    (plan.walletUses.map Prod.fst).Nodup := by
  have hinputs : (plan.walletInputs.map Prod.fst).Nodup := by
    have href : (plan.walletInputs.map Prod.fst).map NoteRef.wallet =
        (spentInputs plan.layers).filterMap fun input =>
          input.wallet?.map fun w => .wallet w.1 := by
      rw [PreparationPlan.walletInputs, List.map_filterMap, List.map_filterMap]
      refine List.filterMap_congr fun input _ => ?_
      cases input <;> rfl
    have hnodup := List.pairwise_map.1 h.spent_once
    refine List.Nodup.of_map NoteRef.wallet ?_
    rw [href]
    refine hnodup.filterMap _ fun a b hab r hr r' hr' => ?_
    cases a <;> cases hr
    cases b <;> cases hr'
    exact hab
  rw [PreparationPlan.walletUses, List.map_append, List.nodup_append]
  refine ⟨h.direct_once, hinputs, fun index hdirect index' hinput heq => ?_⟩
  subst heq
  obtain ⟨note, hnote, rfl⟩ := List.mem_map.1 hdirect
  obtain ⟨⟨i, v⟩, hin, hi⟩ := List.mem_map.1 hinput
  refine h.direct_unspent note hnote (List.mem_map.2 ⟨.wallet i v, mem_walletInputs.1 hin, ?_⟩)
  rw [← hi]
  rfl

/-- A wallet note is used for its value. -/
theorem SoundPlan.walletUses_carried (h : SoundPlan available funding fee plan) {note : ℕ × ℕ}
    (hmem : note ∈ plan.walletUses) : available[note.1]? = some note.2 := by
  obtain hdirect | hinput := List.mem_append.1 hmem
  · exact h.direct_carried note hdirect
  · obtain ⟨layer, txs, hlayer, tx, htx, hin⟩ := mem_spentInputs.1 (mem_walletInputs.1 hinput)
    exact h.wallet_carried tx (List.mem_flatten.2 ⟨txs, List.mem_of_getElem? hlayer, htx⟩) _ _ hin

end VizorWallet.Migration
