import VizorWallet.Library.Pointwise
import VizorWallet.Migration.Preparation.Soundness
import VizorWallet.Migration.Split.Plan

/-!
# Translating a preparation plan to stages

The stages follow the transactions in order.  Parts are taken from what is left of the funding
values, so a sound plan, which mints exactly the funding values, is translated without an error
and every part is assigned once.

## Main results

* `translatePreparationPlan_ok` — a sound plan is translated.
* `Translated` — what the stages are, in terms of the transactions.
-/

namespace VizorWallet.Migration

/-! ## Taking parts -/

/-- Each part assigned, with the value of the note it is assigned to. -/
abbrev PartNotes := List (ℕ × ℕ)

/-- A part can be taken for every value among the parts left. -/
theorem takePartIndex_ok {parts : PartNotes} {value : ℕ} (h : value ∈ parts.map Prod.fst) :
    ∃ index rest, takePartIndex parts value = .ok (index, rest) ∧
      parts.Perm ((value, index) :: rest) := by
  obtain ⟨part, hmem, rfl⟩ := List.mem_map.1 h
  obtain ⟨found, hfound⟩ : ∃ found, parts.find? (fun p => p.1 == part.1) = some found := by
    rw [← Option.isSome_iff_exists, List.find?_isSome]
    exact ⟨part, hmem, by simp⟩
  have hvalue : found.1 = part.1 := by simpa using List.find?_some hfound
  refine ⟨found.2, parts.erase found, by rw [takePartIndex, hfound], ?_⟩
  rw [← hvalue]
  exact List.perm_cons_erase (List.mem_of_find?_eq_some hfound)

theorem mem_map_fst_of_eq {parts : PartNotes} {value : ℕ} {rest : Multiset ℕ}
    (h : ((parts.map Prod.fst : List ℕ) : Multiset ℕ) = value ::ₘ rest) :
    value ∈ parts.map Prod.fst := by
  rw [← Multiset.mem_coe, h]
  exact Multiset.mem_cons_self _ _

/-- Taking a part leaves the other values. -/
theorem map_fst_of_perm {parts rest : PartNotes} {value index : ℕ} {values : Multiset ℕ}
    (hperm : parts.Perm ((value, index) :: rest))
    (h : ((parts.map Prod.fst : List ℕ) : Multiset ℕ) = value ::ₘ values) :
    ((rest.map Prod.fst : List ℕ) : Multiset ℕ) = values := by
  rw [Multiset.coe_eq_coe.2 (hperm.map Prod.fst), List.map_cons, ← Multiset.cons_coe] at h
  exact (Multiset.cons_inj_right value).1 h

/-- The part a direct input is assigned. -/
def DirectMigrationInput.part (input : DirectMigrationInput) : ℕ × ℕ :=
  (input.value, input.partIndex)

theorem translateDirect_ok {positions : List ℕ} {direct : List (ℕ × ℕ)} {parts : PartNotes}
    {values : Multiset ℕ} (hindex : ∀ note ∈ direct, note.1 < positions.length)
    (h : ((parts.map Prod.fst : List ℕ) : Multiset ℕ) = direct.map Prod.snd + values) :
    ∃ inputs rest, translateDirect positions direct parts = .ok (inputs, rest) ∧
      List.Forall₂ (fun (note : ℕ × ℕ) (input : DirectMigrationInput) =>
        positions[note.1]? = some input.inputIndex ∧ input.value = note.2) direct inputs ∧
      parts.Perm (inputs.map DirectMigrationInput.part ++ rest) ∧
      ((rest.map Prod.fst : List ℕ) : Multiset ℕ) = values := by
  induction direct generalizing parts with
  | nil => exact ⟨[], parts, rfl, .nil, by simp, by simpa using h⟩
  | cons note direct ih =>
    obtain ⟨index, value⟩ := note
    have hlt := hindex _ List.mem_cons_self
    rw [List.map_cons, ← Multiset.cons_coe, Multiset.cons_add] at h
    obtain ⟨part, rest, htake, hperm⟩ := takePartIndex_ok (mem_map_fst_of_eq h)
    obtain ⟨inputs, final, hok, hinputs, hparts, hvalues⟩ :=
      ih (fun n hn => hindex n (List.mem_cons_of_mem _ hn)) (map_fst_of_perm hperm h)
    refine ⟨⟨positions[index], part, value⟩ :: inputs, final, ?_, ?_, ?_, hvalues⟩
    · simp [translateDirect, List.getElem?_eq_getElem hlt, htake, hok, pure, Except.pure]
    · exact .cons ⟨List.getElem?_eq_getElem hlt, rfl⟩ hinputs
    · exact hperm.trans (hparts.cons _)

/-! ## Stages -/

/-- The stage input of an input, given the order of the transactions. -/
inductive StageInput (positions : List ℕ) (order : List (ℕ × ℕ)) :
    PrepInput → SplitStageInput → Prop
  | original {index inputIndex value : ℕ} (h : positions[index]? = some inputIndex) :
      StageInput positions order (.wallet index value) (.original inputIndex value)
  | prior {layer transaction stage output value : ℕ}
      (h : order[stage]? = some (layer, transaction)) :
      StageInput positions order (.prior layer transaction output value)
        (.prior stage output value)

/-- The stage output of an output; the part of a migration output is assigned apart. -/
inductive StageOutput : PrepOutput → SplitStageOutput → Prop
  | funding (value part : ℕ) : StageOutput (.funding value) ⟨value, .migration, some part⟩
  | intermediate (value : ℕ) : StageOutput (.intermediate value) ⟨value, .continuation, none⟩
  | change (value : ℕ) : StageOutput (.change value) ⟨value, .orchardChange, none⟩

/-- The part a migration output is assigned. -/
def SplitStageOutput.part? (out : SplitStageOutput) : Option (ℕ × ℕ) :=
  match out.kind with
  | .migration => out.partIndex.map fun index => (out.value, index)
  | _ => none

theorem translateOutputs_ok {outputs : List PrepOutput} {parts : PartNotes} {values : Multiset ℕ}
    (h : ((parts.map Prod.fst : List ℕ) : Multiset ℕ) =
      outputs.filterMap PrepOutput.funding? + values) :
    ∃ stageOutputs rest, translateOutputs outputs parts = .ok (stageOutputs, rest) ∧
      List.Forall₂ StageOutput outputs stageOutputs ∧
      parts.Perm (stageOutputs.filterMap SplitStageOutput.part? ++ rest) ∧
      ((rest.map Prod.fst : List ℕ) : Multiset ℕ) = values := by
  induction outputs generalizing parts with
  | nil => exact ⟨[], parts, rfl, .nil, by simp, by simpa using h⟩
  | cons out outputs ih =>
    cases out with
    | funding value =>
      have hcons : (PrepOutput.funding value :: outputs).filterMap PrepOutput.funding? =
          value :: outputs.filterMap PrepOutput.funding? := rfl
      rw [hcons, ← Multiset.cons_coe, Multiset.cons_add] at h
      obtain ⟨part, rest, htake, hperm⟩ := takePartIndex_ok (mem_map_fst_of_eq h)
      obtain ⟨outs, final, hok, houts, hparts, hvalues⟩ := ih (map_fst_of_perm hperm h)
      refine ⟨⟨value, .migration, some part⟩ :: outs, final, ?_, .cons (.funding value part) houts,
        hperm.trans (hparts.cons _), hvalues⟩
      simp [translateOutputs, htake, hok, pure, Except.pure]
    | intermediate value =>
      obtain ⟨outs, final, hok, houts, hparts, hvalues⟩ := ih h
      refine ⟨⟨value, .continuation, none⟩ :: outs, final, ?_, .cons (.intermediate value) houts,
        hparts, hvalues⟩
      simp [translateOutputs, hok, pure, Except.pure]
    | change value =>
      obtain ⟨outs, final, hok, houts, hparts, hvalues⟩ := ih h
      refine ⟨⟨value, .orchardChange, none⟩ :: outs, final, ?_, .cons (.change value) houts,
        hparts, hvalues⟩
      simp [translateOutputs, hok, pure, Except.pure]

/-- The coordinates recorded after the transactions of `order`. -/
def coordinatesOf (order : List (ℕ × ℕ)) : Coordinates := order.zipIdx

theorem lookup_coordinatesOf {order : List (ℕ × ℕ)} {key : ℕ × ℕ} (h : key ∈ order) :
    ∃ stage, (coordinatesOf order).lookup key = some stage ∧ order[stage]? = some key := by
  have hfrom : ∀ (l : List (ℕ × ℕ)) (first : ℕ), key ∈ l →
      ∃ stage, (l.zipIdx first).lookup key = some (first + stage) ∧ l[stage]? = some key := by
    intro l
    induction l with
    | nil => simp
    | cons k rest ih =>
      intro first hmem
      rw [List.zipIdx_cons]
      by_cases heq : key = k
      · subst heq
        exact ⟨0, by simp, rfl⟩
      · obtain ⟨stage, hlookup, hget⟩ := ih (first + 1) ((List.mem_cons.1 hmem).resolve_left heq)
        refine ⟨stage + 1, ?_, hget⟩
        rw [List.lookup_cons, beq_eq_false_iff_ne.2 heq]
        simpa [Nat.add_comm, Nat.add_left_comm] using hlookup
  obtain ⟨stage, hlookup, hget⟩ := hfrom order 0 h
  exact ⟨stage, by simpa [coordinatesOf] using hlookup, hget⟩

theorem translateInputs_ok {positions : List ℕ} {order : List (ℕ × ℕ)} {inputs : List PrepInput}
    (hwallet : ∀ index value, .wallet index value ∈ inputs → index < positions.length)
    (hprior : ∀ l t o value, .prior l t o value ∈ inputs → (l, t) ∈ order) :
    ∃ stageInputs, inputs.mapM (translateInput positions (coordinatesOf order)) =
        .ok stageInputs ∧ List.Forall₂ (StageInput positions order) inputs stageInputs := by
  induction inputs with
  | nil => exact ⟨[], rfl, .nil⟩
  | cons input rest ih =>
    obtain ⟨stageInputs, hok, hrest⟩ := ih
      (fun i v hmem => hwallet i v (List.mem_cons_of_mem _ hmem))
      (fun l t o v hmem => hprior l t o v (List.mem_cons_of_mem _ hmem))
    cases input with
    | wallet index value =>
      have hlt := hwallet index value List.mem_cons_self
      refine ⟨.original positions[index] value :: stageInputs, ?_,
        .cons (.original (List.getElem?_eq_getElem hlt)) hrest⟩
      simp [List.mapM_cons, translateInput, List.getElem?_eq_getElem hlt, hok, pure, Except.pure]
    | prior l t o value =>
      obtain ⟨stage, hlookup, hget⟩ := lookup_coordinatesOf (hprior l t o value List.mem_cons_self)
      refine ⟨.prior stage o value :: stageInputs, ?_, .cons (.prior hget) hrest⟩
      simp [List.mapM_cons, translateInput, hlookup, hok, pure, Except.pure]

/-- The stage of a transaction of a layer. -/
structure StageOf (positions : List ℕ) (order : List (ℕ × ℕ)) (feePerStage : ℕ)
    (located : (ℕ × ℕ) × PrepTransaction) (stage : SplitStagePlan) : Prop where
  layerIndex : stage.layerIndex = located.1.1
  inputs : List.Forall₂ (StageInput positions order) located.2.inputs stage.inputs
  outputs : List.Forall₂ StageOutput located.2.outputs stage.outputs
  fee : stage.fee = feePerStage
  requestedActions : stage.requestedActions = stage.inputs.length + stage.outputs.length

/-- The parts the migration outputs of some stages are assigned. -/
def stageParts (stages : List SplitStagePlan) : PartNotes :=
  (stages.flatMap SplitStagePlan.outputs).filterMap SplitStageOutput.part?

theorem stageParts_append (stages more : List SplitStagePlan) :
    stageParts (stages ++ more) = stageParts stages ++ stageParts more := by
  simp [stageParts]

theorem StageInput.value_eq {positions : List ℕ} {order : List (ℕ × ℕ)} {input : PrepInput}
    {stageInput : SplitStageInput} (h : StageInput positions order input stageInput) :
    stageInput.value = input.value := by
  cases h <;> rfl

theorem StageOutput.value_eq {out : PrepOutput} {stageOutput : SplitStageOutput}
    (h : StageOutput out stageOutput) : stageOutput.value = out.value := by
  cases h <;> rfl

theorem StageInput.mono {positions : List ℕ} {order more : List (ℕ × ℕ)} {input : PrepInput}
    {stageInput : SplitStageInput} (h : StageInput positions order input stageInput) :
    StageInput positions (order ++ more) input stageInput := by
  cases h with
  | original h => exact .original h
  | prior h => exact .prior (by rw [List.getElem?_append_left (List.getElem?_eq_some_iff.1 h).1, h])

/-- A stage stays the stage of its transaction when more transactions follow. -/
theorem StageOf.mono {positions : List ℕ} {order : List (ℕ × ℕ)} {feePerStage : ℕ}
    {located : (ℕ × ℕ) × PrepTransaction} {stage : SplitStagePlan} (more : List (ℕ × ℕ))
    (h : StageOf positions order feePerStage located stage) :
    StageOf positions (order ++ more) feePerStage located stage :=
  { h with inputs := h.inputs.imp fun _ _ h => h.mono }

/-- What a translation needs of a transaction: it is small, balanced and in range, and its inputs
can be located. -/
structure Translatable (positions : List ℕ) (order : List (ℕ × ℕ)) (feePerStage : ℕ)
    (tx : PrepTransaction) : Prop where
  actionCount_le : tx.actionCount ≤ prepTxActions
  balanced : (tx.inputs.map PrepInput.value).sum =
    (tx.outputs.map PrepOutput.value).sum + feePerStage
  inputs_lt : (tx.inputs.map PrepInput.value).sum < u64Size
  wallet : ∀ index value, .wallet index value ∈ tx.inputs → index < positions.length
  prior : ∀ l t o value, .prior l t o value ∈ tx.inputs → (l, t) ∈ order

/-- One transaction becomes one stage. -/
theorem Translation.transaction_ok {positions : List ℕ} {order : List (ℕ × ℕ)}
    {feePerStage : ℕ} {state : Translation} {tx : PrepTransaction} {values : Multiset ℕ}
    (key : ℕ × ℕ) (horder : state.coordinates = coordinatesOf order)
    (hlength : state.stages.length = order.length)
    (htx : Translatable positions order feePerStage tx)
    (hvalues : ((state.parts.map Prod.fst : List ℕ) : Multiset ℕ) =
      tx.outputs.filterMap PrepOutput.funding? + values) :
    ∃ stage parts, state.transaction positions feePerStage key.1 key.2 tx = .ok
        { parts
          coordinates := coordinatesOf (order ++ [key])
          stages := state.stages ++ [stage] } ∧
      StageOf positions order feePerStage (key, tx) stage ∧
      state.parts.Perm (stageParts [stage] ++ parts) ∧
      ((parts.map Prod.fst : List ℕ) : Multiset ℕ) = values := by
  obtain ⟨inputs, hinputs, hin⟩ := translateInputs_ok htx.wallet htx.prior
  obtain ⟨outputs, parts, houtputs, hout, hparts, hrest⟩ := translateOutputs_ok hvalues
  have hin_value := map_eq_of_forall₂ hin fun _ _ h => h.value_eq
  have hout_value := map_eq_of_forall₂ hout fun _ _ h => h.value_eq
  have hsize : inputs.length + outputs.length ≤ denominationSplitActions := by
    rw [← hin.length_eq, ← hout.length_eq]
    exact htx.actionCount_le
  have hin_lt := htx.inputs_lt
  have hbalanced := htx.balanced
  refine ⟨⟨key.1, inputs, outputs, feePerStage, inputs.length + outputs.length⟩, parts, ?_,
    ⟨rfl, hin, hout, rfl, rfl⟩, by simpa [stageParts] using hparts, hrest⟩
  have hcoordinates : coordinatesOf (order ++ [key]) =
      state.coordinates ++ [((key.1, key.2), state.stages.length)] := by
    rw [horder, hlength, coordinatesOf, coordinatesOf, List.zipIdx_append]
    simp
  simp only [Translation.transaction, horder, hinputs, houtputs, ok_bind, bind_eq_ok, ensure_eq_ok,
    checkedSum_eq_ok, orError_eq_ok, checkedAdd_eq_some, pure_eq_ok, hin_value, hout_value]
  refine ⟨(), hsize, _, ⟨rfl, hin_lt⟩, _, ⟨rfl, by omega⟩, _, ⟨by omega, rfl⟩, (), hbalanced, ?_⟩
  rw [hcoordinates, horder]

/-! ## The whole plan -/

/-- The transactions are translated one after the other. -/
theorem foldlM_transaction_ok {positions : List ℕ} {feePerStage : ℕ}
    (located : List ((ℕ × ℕ) × PrepTransaction)) {done : List ((ℕ × ℕ) × PrepTransaction)}
    {state : Translation} {values : Multiset ℕ}
    (hcoordinates : state.coordinates = coordinatesOf (done.map Prod.fst))
    (hstages : List.Forall₂ (StageOf positions ((done ++ located).map Prod.fst) feePerStage) done
      state.stages)
    (htx : ∀ before entry after, located = before ++ entry :: after →
      Translatable positions ((done ++ before).map Prod.fst) feePerStage entry.2)
    (hvalues : ((state.parts.map Prod.fst : List ℕ) : Multiset ℕ) =
      (located.flatMap fun entry => entry.2.outputs).filterMap PrepOutput.funding? + values) :
    ∃ final, located.foldlM (fun state (entry : (ℕ × ℕ) × PrepTransaction) =>
        state.transaction positions feePerStage entry.1.1 entry.1.2 entry.2) state =
          (.ok final : Except String Translation) ∧
      List.Forall₂ (StageOf positions ((done ++ located).map Prod.fst) feePerStage)
        (done ++ located) final.stages ∧
      (stageParts state.stages ++ state.parts).Perm (stageParts final.stages ++ final.parts) ∧
      ((final.parts.map Prod.fst : List ℕ) : Multiset ℕ) = values := by
  induction located generalizing done state with
  | nil =>
    refine ⟨state, rfl, ?_, List.Perm.refl _, by simpa using hvalues⟩
    simpa using hstages
  | cons entry rest ih =>
    obtain ⟨key, tx⟩ := entry
    rw [List.flatMap_cons, List.filterMap_append, ← Multiset.coe_add, add_assoc] at hvalues
    have hlength : state.stages.length = (done.map Prod.fst).length := by
      rw [List.length_map, ← hstages.length_eq]
    have hfirst : Translatable positions (done.map Prod.fst) feePerStage tx := by
      simpa using htx [] (key, tx) rest rfl
    obtain ⟨stage, parts, hok, hstage, hparts, hrest⟩ :=
      Translation.transaction_ok key hcoordinates hlength hfirst hvalues
    have hsplit : done ++ (key, tx) :: rest = (done ++ [(key, tx)]) ++ rest := by simp
    rw [hsplit] at hstages ⊢
    have hstage' : StageOf positions ((done ++ [(key, tx)] ++ rest).map Prod.fst) feePerStage
        (key, tx) stage := by
      have hmore := hstage.mono (key :: rest.map Prod.fst)
      simpa using hmore
    let next : Translation := { parts, coordinates := coordinatesOf (done.map Prod.fst ++ [key]),
                                stages := state.stages ++ [stage] }
    have hnext : next.coordinates = coordinatesOf ((done ++ [(key, tx)]).map Prod.fst) := by
      simp [next]
    obtain ⟨final, hfinal, hall, hassigned, hleft⟩ := ih hnext
      (List.rel_append hstages (.cons hstage' .nil))
      (fun before entry after heq => by
        simpa using htx ((key, tx) :: before) entry after (by rw [heq]; rfl))
      hrest
    refine ⟨final, ?_, hall, ?_, hleft⟩
    · rw [List.foldlM_cons, hok]
      exact hfinal
    · refine List.Perm.trans ?_ hassigned
      change (stageParts state.stages ++ state.parts).Perm
        (stageParts (state.stages ++ [stage]) ++ parts)
      rw [stageParts_append, List.append_assoc]
      exact hparts.append_left _

theorem mem_locatedTransactions {layers : Layers} {l t : ℕ} {tx : PrepTransaction} :
    ((l, t), tx) ∈ locatedTransactions layers ↔
      ∃ txs, layers[l]? = some txs ∧ txs[t]? = some tx := by
  simp only [locatedTransactions, List.mem_flatMap, List.mem_map, Prod.exists, Prod.mk.injEq,
    List.mk_mem_zipIdx_iff_getElem?]
  grind

theorem map_snd_locatedTransactions (layers : Layers) :
    (locatedTransactions layers).map Prod.snd = layers.flatten := by
  have hlayer : ∀ x : List PrepTransaction × ℕ,
      (x.1.zipIdx.map fun y : PrepTransaction × ℕ => ((x.2, y.2), y.1)).map Prod.snd = x.1 := by
    intro x
    rw [List.map_map]
    exact List.zipIdx_map_fst 0 x.1
  conv_rhs => rw [← List.zipIdx_map_fst 0 layers, ← List.flatMap_id, List.flatMap_map]
  simp only [locatedTransactions, List.map_flatMap, hlayer, id]

/-- The transactions come layer by layer. -/
theorem pairwise_locatedTransactions (layers : Layers) :
    (locatedTransactions layers).Pairwise fun a b => a.1.1 ≤ b.1.1 := by
  rw [locatedTransactions, List.pairwise_flatMap]
  constructor
  · rintro ⟨txs, li⟩ -
    rw [List.pairwise_map]
    exact List.pairwise_of_forall fun _ _ => le_rfl
  · refine (pairwise_zipIdx layers 0).imp ?_
    rintro ⟨txs, li⟩ ⟨txs', li'⟩ hlt a ha b hb
    obtain ⟨x, -, rfl⟩ := List.mem_map.1 ha
    obtain ⟨y, -, rfl⟩ := List.mem_map.1 hb
    exact hlt.le

/-- What a translated plan is, in terms of the preparation plan. -/
structure Translated (positions fundingValues : List ℕ) (feePerStage : ℕ)
    (preparation : PreparationPlan) (plan : PaddedDenominationPlan) : Prop where
  stages : List.Forall₂
    (StageOf positions ((locatedTransactions preparation.layers).map Prod.fst) feePerStage)
    (locatedTransactions preparation.layers) plan.stages
  direct : ∃ inputs, plan.directMigrationInputs.Perm inputs ∧
    List.Forall₂ (fun (note : ℕ × ℕ) (input : DirectMigrationInput) =>
      positions[note.1]? = some input.inputIndex ∧ input.value = note.2)
      preparation.directFunding inputs
  parts : (plan.directMigrationInputs.map DirectMigrationInput.part ++
    stageParts plan.stages).Perm fundingValues.zipIdx

variable {available fundingValues positions : List ℕ} {feePerStage : ℕ}
  {preparation : PreparationPlan}

/-- The transactions of a sound plan can be translated one after the other. -/
theorem SoundPlan.translatable (h : SoundPlan available fundingValues feePerStage preparation)
    (hpositions : positions.length = available.length)
    (hrange : ∀ tx ∈ preparation.transactions,
      (tx.inputs.map PrepInput.value).sum < u64Size)
    {before after : List ((ℕ × ℕ) × PrepTransaction)} {entry : (ℕ × ℕ) × PrepTransaction}
    (heq : locatedTransactions preparation.layers = before ++ entry :: after) :
    Translatable positions (before.map Prod.fst) feePerStage entry.2 := by
  obtain ⟨⟨l, t⟩, tx⟩ := entry
  have hmem : ((l, t), tx) ∈ locatedTransactions preparation.layers := by rw [heq]; simp
  obtain ⟨txs, hlayer, htx⟩ := mem_locatedTransactions.1 hmem
  have htxs : tx ∈ txs := List.mem_of_getElem? htx
  have htransaction : tx ∈ preparation.transactions :=
    List.mem_flatten.2 ⟨txs, List.mem_of_getElem? hlayer, htxs⟩
  refine ⟨h.actionCount_le tx htransaction, h.balanced tx htransaction, hrange tx htransaction,
    fun index value hin => ?_, fun l' t' o value hin => ?_⟩
  · rw [hpositions]
    exact (List.getElem?_eq_some_iff.1 (h.wallet_carried tx htransaction index value hin)).1
  · obtain ⟨hlt, hout⟩ := h.prior_carried l txs hlayer tx htxs l' t' o value hin
    obtain ⟨tx', htx', -⟩ := Option.bind_eq_some_iff.1 hout
    have hmem' : ((l', t'), tx') ∈ locatedTransactions preparation.layers := by
      rw [mem_locatedTransactions]
      cases hlayer' : preparation.layers[l']? with
      | none => simp [hlayer'] at htx'
      | some txs' => exact ⟨txs', rfl, by simpa [hlayer'] using htx'⟩
    have hpairwise := pairwise_locatedTransactions preparation.layers
    rw [heq] at hmem' hpairwise
    obtain hin | hin := List.mem_append.1 hmem'
    · exact List.mem_map.2 ⟨_, hin, rfl⟩
    · -- a transaction that does not come before is not in an earlier layer
      have hafter := (List.pairwise_append.1 hpairwise).2.1
      obtain heq' | hin := List.mem_cons.1 hin
      · cases heq'
        omega
      · have := (List.pairwise_cons.1 hafter).1 _ hin
        simp only at this
        omega

/-- A sound plan for some funding values is translated, with those values in any order. -/
theorem translatePreparationPlan_ok
    (h : SoundPlan available fundingValues feePerStage preparation)
    (hpositive : ∀ v ∈ fundingValues, 0 < v) (hpositions : positions.length = available.length)
    (hrange : ∀ tx ∈ preparation.transactions,
      (tx.inputs.map PrepInput.value).sum < u64Size)
    {parts : List ℕ} (hparts : fundingValues.Perm parts) (denominations : DenominationPlan) :
    ∃ plan, translatePreparationPlan preparation denominations positions parts feePerStage =
        .ok plan ∧ plan.denominations = denominations ∧
      Translated positions parts feePerStage preparation plan := by
  have hfunding : ((parts.zipIdx.map Prod.fst : List ℕ) : Multiset ℕ) =
      preparation.directFunding.map Prod.snd +
        (preparation.allOutputs.filterMap PrepOutput.funding? : Multiset ℕ) := by
    have hperm := h.fundingNotes_perm
    rw [List.filter_eq_self.2 (by simpa using hpositive)] at hperm
    rw [List.zipIdx_map_fst, ← Multiset.coe_eq_coe.2 (hperm.trans hparts),
      PreparationPlan.fundingNotes, ← Multiset.coe_add, add_comm]
  have hindex : ∀ note ∈ preparation.directFunding, note.1 < positions.length := by
    intro note hmem
    rw [hpositions]
    exact (List.getElem?_eq_some_iff.1 (h.direct_carried note hmem)).1
  obtain ⟨inputs, rest, hdirect, hinputs, htaken, hrest⟩ := translateDirect_ok hindex hfunding
  have houtputs : (locatedTransactions preparation.layers).flatMap (fun entry => entry.2.outputs) =
      preparation.allOutputs := by
    rw [PreparationPlan.allOutputs, PreparationPlan.transactions, ← map_snd_locatedTransactions,
      List.flatMap_map]
  let start : Translation := { parts := rest, coordinates := [], stages := [] }
  have hstart : start.coordinates =
      coordinatesOf (([] : List ((ℕ × ℕ) × PrepTransaction)).map Prod.fst) := rfl
  obtain ⟨final, hfinal, hstages, hassigned, hleft⟩ := foldlM_transaction_ok
    (locatedTransactions preparation.layers) hstart .nil
    (fun before entry after heq => by
      simpa using h.translatable hpositions hrange heq)
    (by rw [houtputs, add_zero]; exact hrest)
  have hnone : final.parts = [] := by simpa using hleft
  rw [hnone, List.append_nil] at hassigned
  refine ⟨{ denominations
            stages := final.stages
            layerCount := preparation.layers.length
            directMigrationInputs := inputs.insertionSort fun a b => a.partIndex ≤ b.partIndex },
    ?_, rfl, ?_⟩
  · simp only [translatePreparationPlan, hdirect, ok_bind]
    rw [hfinal]
    simp [hnone, ensure, pure, Except.pure]
  · have hsort := List.perm_insertionSort
      (fun a b : DirectMigrationInput => a.partIndex ≤ b.partIndex) inputs
    refine ⟨by simpa using hstages, ⟨inputs, hsort, hinputs⟩, ?_⟩
    refine ((hsort.map _).append_right _).trans (List.Perm.trans ?_ htaken.symm)
    exact (List.Perm.append_left _ hassigned.symm)

end VizorWallet.Migration
