import VizorWallet.Library.Outcome
import VizorWallet.Migration.Preparation.Soundness

/-!
# Preparing one funding note

A single funding note can be prepared when a wallet note has its value, or when rounds of
consolidation lead to a note that is worth it and the fee of the transaction that mints it.

## Main definitions

* `mergedValues`, `keptValues` — a round of consolidation on the values of the notes.
* `ReachedByLayers`, `ReachedByMerging` — the rounds of the greedy and of the fallback.

## Main results

* `planPreparation_reached` — when the planner prepares one funding note.
* `planPreparation_error` — the planner fails on insufficient funds only.
-/

namespace VizorWallet.Migration

variable {S : UnstableSort PrepInput.value} {fee target layer : ℕ} {values : List ℕ}
  {current pool : List PrepInput}

/-! ## Rounds of consolidation -/

/-- The batches of a round, the largest values first. -/
def valueBatches (values : List ℕ) : List (List ℕ) :=
  cutBatches (sortDescending values) (consolidationBatchSizes values.length)

/-- The feeders of a round. -/
def mergedValues (fee : ℕ) (values : List ℕ) : List ℕ :=
  ((valueBatches values).filter fun batch => fee < batch.sum).map fun batch => batch.sum - fee

/-- The values whose batch cannot pay the fee. -/
def keptValues (fee : ℕ) (values : List ℕ) : List ℕ :=
  ((valueBatches values).filter fun batch => batch.sum ≤ fee).flatten

theorem mergedValues_congr {values' : List ℕ} (h : values.Perm values') :
    mergedValues fee values = mergedValues fee values' := by
  rw [mergedValues, valueBatches, sortDescending_congr h, h.length_eq]
  rfl

/-- A round loses the fees it pays. -/
theorem sum_mergedValues_add_le (fee : ℕ) (values : List ℕ) :
    (mergedValues fee values).sum + (keptValues fee values).sum ≤ values.sum := by
  have hbatches : ∀ batches : List (List ℕ),
      ((batches.filter fun batch => fee < batch.sum).map fun batch => batch.sum - fee).sum +
        (batches.filter fun batch => batch.sum ≤ fee).flatten.sum ≤ batches.flatten.sum := by
    intro batches
    induction batches with
    | nil => simp
    | cons batch rest ih =>
      rw [List.flatten_cons, List.sum_append]
      by_cases hfee : fee < batch.sum
      · have hkept : ¬ batch.sum ≤ fee := by omega
        simp only [List.filter_cons, hfee, hkept, decide_true, decide_false, if_true,
          Bool.false_eq_true, if_false, List.map_cons, List.sum_cons]
        omega
      · have hkept : batch.sum ≤ fee := by omega
        simp only [List.filter_cons, hfee, hkept, decide_true, decide_false, if_true,
          Bool.false_eq_true, if_false, List.flatten_cons, List.sum_append]
        omega
  have hall := hbatches (valueBatches values)
  rw [valueBatches, flatten_cutBatches _ _ (by simp [sum_consolidationBatchSizes]),
    sum_sortDescending] at hall
  exact hall

theorem map_value_sort (pool : List PrepInput) :
    (S.sort pool).map PrepInput.value = sortDescending (pool.map PrepInput.value) :=
  (sortDescending_eq_of_pairwise ((S.perm pool).map _)
    (List.pairwise_map.2 (S.sorted pool))).symm

theorem map_cutBatches {α β : Type*} (f : α → β) (pool : List α) (sizes : List ℕ) :
    (cutBatches pool sizes).map (List.map f) = cutBatches (pool.map f) sizes := by
  induction sizes generalizing pool with
  | nil => rfl
  | cons size sizes ih =>
    rw [cutBatches, List.map_cons, ih, cutBatches, List.map_take, List.map_drop]

/-- The batches that are combined and those that are left, by their values. -/
theorem foldl_addBatch_values (layer fee : ℕ) (batches : List (List PrepInput))
    (build : LayerBuild) :
    ((batches.foldl (LayerBuild.addBatch layer fee) build).next.map PrepInput.value =
      build.next.map PrepInput.value ++
        ((batches.map (List.map PrepInput.value)).filter fun batch => fee < batch.sum).map
          fun batch => batch.sum - fee) ∧
    (batches.foldl (LayerBuild.addBatch layer fee) build).leftover.map PrepInput.value =
      build.leftover.map PrepInput.value ++
        ((batches.map (List.map PrepInput.value)).filter fun batch => batch.sum ≤ fee).flatten := by
  induction batches generalizing build with
  | nil => simp
  | cons batch rest ih =>
    obtain ⟨hnext, hleftover⟩ := ih (build.addBatch layer fee batch)
    rw [List.foldl_cons, hnext, hleftover]
    unfold LayerBuild.addBatch
    split_ifs with hfee
    · simp [LayerBuild.leave, hfee, Nat.not_lt.2 hfee]
    · have hlt : fee < (batch.map PrepInput.value).sum := by omega
      simp [LayerBuild.combine, PrepInput.value, hfee, hlt]

/-- A round on notes is a round on their values. -/
theorem consolidate_values (hlength : 2 ≤ pool.length) :
    (consolidate S pool layer fee {}).next.map PrepInput.value =
        mergedValues fee (pool.map PrepInput.value) ∧
      (consolidate S pool layer fee {}).leftover.map PrepInput.value =
        keptValues fee (pool.map PrepInput.value) := by
  obtain ⟨hnext, hleftover⟩ := foldl_addBatch_values layer fee
    (cutBatches (S.sort pool) (consolidationBatchSizes pool.length)) {}
  rw [map_cutBatches, map_value_sort] at hnext hleftover
  rw [consolidate, if_neg (by omega), mergedValues, keptValues, valueBatches, List.length_map]
  exact ⟨hnext, hleftover⟩

theorem consolidate_txs_eq_nil (hlength : 2 ≤ pool.length) :
    (consolidate S pool layer fee {}).txs = [] ↔
      mergedValues fee (pool.map PrepInput.value) = [] := by
  have hcount := consolidate_next S pool layer fee {}
  rw [← (@consolidate_values S fee layer pool hlength).1, List.map_eq_nil_iff,
    ← List.length_eq_zero_iff, ← List.length_eq_zero_iff]
  simp only [List.length_nil] at hcount
  omega

theorem consolidate_short (hlength : pool.length < 2) :
    consolidate S pool layer fee {} = { leftover := pool } := by
  rw [consolidate, if_pos hlength]
  rfl

/-! ## The layers of the greedy -/

/-- Some round of the greedy holds a note of at least the target. -/
inductive ReachedByLayers (fee target : ℕ) : List ℕ → Prop
  | value {values : List ℕ} {value : ℕ} (hvalue : value ∈ values) (hle : target ≤ value) :
    ReachedByLayers fee target values
  | round {values : List ℕ} (hlength : 2 ≤ values.length)
    (hround : ReachedByLayers fee target (mergedValues fee values)) :
    ReachedByLayers fee target values

/-- Everything can be merged into one note of at least the target. -/
inductive ReachedByMerging (fee target : ℕ) : List ℕ → Prop
  | value {value : ℕ} (hle : target ≤ value) : ReachedByMerging fee target [value]
  | round {values : List ℕ} (hlength : 2 ≤ values.length) (hmerged : mergedValues fee values ≠ [])
    (hround : ReachedByMerging fee target (mergedValues fee values ++ keptValues fee values)) :
    ReachedByMerging fee target values

theorem ReachedByLayers.mono {target' : ℕ} (hle : target' ≤ target)
    (h : ReachedByLayers fee target values) : ReachedByLayers fee target' values := by
  induction h with
  | value hvalue hreached => exact .value hvalue (hle.trans hreached)
  | round hlength _ ih => exact .round hlength ih

theorem ReachedByMerging.mono {target' : ℕ} (hle : target' ≤ target)
    (h : ReachedByMerging fee target values) : ReachedByMerging fee target' values := by
  induction h with
  | value hreached => exact .value (hle.trans hreached)
  | round hlength hmerged _ ih => exact .round hlength hmerged ih

/-- A note that is reached is worth no more than all notes. -/
theorem ReachedByLayers.le_sum (h : ReachedByLayers fee target values) : target ≤ values.sum := by
  induction h with
  | value hvalue hreached => exact hreached.trans (List.single_le_sum (by simp) _ hvalue)
  | @round values _ _ ih =>
    have hround := sum_mergedValues_add_le fee values
    omega

theorem ReachedByMerging.le_sum (h : ReachedByMerging fee target values) :
    target ≤ values.sum := by
  induction h with
  | value hreached => simpa using hreached
  | @round values _ _ _ ih =>
    have hround := sum_mergedValues_add_le fee values
    rw [List.sum_append] at ih
    omega

theorem not_reachedByLayers_nil : ¬ ReachedByLayers fee target [] := by
  rintro (⟨hvalue, -⟩ | ⟨hlength, -⟩)
  · cases hvalue
  · cases hlength

theorem subtreeCost_singleton (hfit : target + fee < u64Size) :
    (subtreeCost [target] fee).2 = target + fee := by
  have hdepth : splitDepth [target].length ≤ 1 := by
    rw [List.length_singleton]
    decide +kernel
  rw [subtreeCost, if_pos hdepth, wrappingSum_of_lt (by simp; omega), List.sum_singleton,
    wrappingAdd_of_lt hfit]

/-- Once nothing remains to mint, the first pass leaves the other notes alone. -/
theorem foldl_step_done {pass : PassOne} (h : pass.remaining = []) (notes : List PrepInput) :
    notes.foldl (PassOne.step fee) pass = pass := by
  induction notes with
  | nil => rfl
  | cons note rest ih =>
    have hstep : pass.step fee note = pass := by
      rw [PassOne.step, h]
      rfl
    rw [List.foldl_cons, hstep, ih]

/-- A note that is worth the target mints it. -/
theorem passOne_reached (htarget : 0 < target) {note : PrepInput} (hnote : note ∈ current)
    (hle : target + fee ≤ note.value) :
    ∃ assignment, passOne S fee [target] current = ⟨[], [assignment], []⟩ := by
  have hmem : note ∈ S.sort current := S.mem_sort.2 hnote
  have hsorted := S.sorted current
  rw [passOne]
  cases hsort : S.sort current with
  | nil =>
    rw [hsort] at hmem
    cases hmem
  | cons first rest =>
    rw [hsort] at hmem hsorted
    -- The largest note comes first.
    have hfirst : target + fee ≤ first.value := by
      rcases List.mem_cons.1 hmem with rfl | hlater
      · exact hle
      · exact hle.trans ((List.pairwise_cons.1 hsorted).1 note hlater)
    have hassign : assignFunding (first.value - fee) [target] 0 fundingOutputsPerTx =
        ⟨[target], [], target⟩ := by
      have hbudget : 0 + target ≤ first.value - fee := by omega
      rw [show fundingOutputsPerTx = 13 + 1 from rfl, assignFunding, if_pos hbudget, assignFunding,
        Nat.zero_add]
    have hstep : PassOne.step fee { remaining := [target] } first =
        ⟨[], [⟨first, [target], first.value - fee - target⟩], []⟩ := by
      have hlarge : ¬ (first.value ≤ fee ∨ first.value - fee < target) := by omega
      simp only [PassOne.step, List.getLast?_singleton, if_neg hlarge, hassign, List.nil_append]
    rw [List.foldl_cons, hstep, foldl_step_done rfl]
    exact ⟨_, rfl⟩

/-- Otherwise every note is set aside. -/
theorem passOne_unreached (hnone : ∀ note ∈ current, note.value < target + fee) :
    passOne S fee [target] current = ⟨[target], [], S.sort current⟩ := by
  have hfold : ∀ (notes aside : List PrepInput), (∀ note ∈ notes, note.value < target + fee) →
      notes.foldl (PassOne.step fee) ⟨[target], [], aside⟩ = ⟨[target], [], aside ++ notes⟩ := by
    intro notes
    induction notes with
    | nil =>
      intro aside _
      rw [List.foldl_nil, List.append_nil]
    | cons note rest ih =>
      intro aside hsmall
      obtain ⟨hnote, hrest⟩ := List.forall_mem_cons.1 hsmall
      have hstep : PassOne.step fee ⟨[target], [], aside⟩ note =
          ⟨[target], [], aside ++ [note]⟩ := by
        have hlt : note.value ≤ fee ∨ note.value - fee < target := by omega
        simp only [PassOne.step, List.getLast?_singleton, if_pos hlt]
      rw [List.foldl_cons, hstep, ih _ hrest, List.append_assoc, List.singleton_append]
  have hsorted : ∀ note ∈ S.sort current, note.value < target + fee := by
    intro note hnote
    exact hnone note (S.mem_sort.1 hnote)
  rw [passOne, hfold _ _ hsorted, List.nil_append]

/-- The layers of the greedy for one funding note. -/
theorem greedyLoop_single (htarget : 0 < target) (current : List PrepInput) (layers : Layers) :
    (∃ layers', greedyLoop S fee [target] current layers = .ok layers') ↔
      ReachedByLayers fee (target + fee) (current.map PrepInput.value) := by
  induction hcount : current.length using Nat.strong_induction_on generalizing current layers with
  | _ count ih =>
    rw [greedyLoop, if_neg (List.cons_ne_nil target [])]
    by_cases hreached : ∃ note ∈ current, target + fee ≤ note.value
    · obtain ⟨note, hnote, hle⟩ := hreached
      refine iff_of_true ?_ (.value (List.mem_map_of_mem hnote) hle)
      obtain ⟨assignment, hpass⟩ := @passOne_reached S fee target current htarget note hnote hle
      have htxs : (passTwo S fee layers.length ⟨[], [assignment], []⟩).txs ≠ [] := by
        rw [passTwo, consolidate, if_pos (by simp)]
        exact List.cons_ne_nil _ _
      rw [dif_neg (List.ne_nil_of_mem hnote)]
      dsimp only
      rw [hpass, if_neg htxs, greedyLoop, if_pos rfl]
      exact ⟨_, rfl⟩
    · push Not at hreached
      have hpass := @passOne_unreached S fee target current hreached
      have hbuild : passTwo S fee layers.length ⟨[target], [], S.sort current⟩ =
          consolidate S (S.sort current) layers.length fee {} := rfl
      have hsame : ((S.sort current).map PrepInput.value).Perm (current.map PrepInput.value) :=
        (S.perm current).map _
      have hround : ReachedByLayers fee (target + fee) (current.map PrepInput.value) ↔
          2 ≤ current.length ∧ ReachedByLayers fee (target + fee)
            (mergedValues fee (current.map PrepInput.value)) := by
        constructor
        · rintro (⟨hvalue, hle⟩ | ⟨hlength, hround⟩)
          · obtain ⟨note, hnote, rfl⟩ := List.mem_map.1 hvalue
            exact absurd hle (Nat.not_le.2 (hreached note hnote))
          · exact ⟨by simpa using hlength, hround⟩
        · rintro ⟨hlength, hround⟩
          exact .round (by simpa using hlength) hround
      rw [hround]
      split_ifs with hcurrent
      · refine iff_of_false (fun h => by cases h.choose_spec) ?_
        rintro ⟨hlength, -⟩
        rw [hcurrent] at hlength
        cases hlength
      · have hless := passTwo_lt S fee layers.length [target] hcurrent
        dsimp only
        rw [hpass, hbuild] at hless ⊢
        by_cases hlength : 2 ≤ current.length
        · have hlength' : 2 ≤ (S.sort current).length := by
            rw [S.length_sort]
            exact hlength
          have hvalues := (@consolidate_values S fee layers.length _ hlength').1
          rw [mergedValues_congr hsame] at hvalues
          split_ifs with htxs
          · have hmerged := (@consolidate_txs_eq_nil S fee layers.length _ hlength').1 htxs
            rw [mergedValues_congr hsame] at hmerged
            refine iff_of_false (fun h => by cases h.choose_spec) ?_
            rintro ⟨-, hnext⟩
            rw [hmerged] at hnext
            exact not_reachedByLayers_nil hnext
          · have hnext := ih _ (by simp only [List.length_singleton] at hless; omega)
              (consolidate S (S.sort current) layers.length fee {}).next
              (layers ++ [(consolidate S (S.sort current) layers.length fee {}).txs]) rfl
            rw [hvalues] at hnext
            rw [hnext]
            exact (and_iff_right hlength).symm
        · rw [consolidate_short (by rw [S.length_sort]; omega), if_pos rfl]
          exact iff_of_false (fun h => by cases h.choose_spec) fun h => hlength h.1

/-! ## The fallback -/

/-- Merging ends in one note, or in none. -/
theorem consolidateAll_single (hfit : target + fee < u64Size) (current : List PrepInput)
    (layers : Layers) :
    (∃ pool layers', consolidateAll S fee current layers = .ok (pool, layers') ∧
      ∃ source, pool.getLast? = some source ∧ (subtreeCost [target] fee).2 ≤ source.value) ↔
      ReachedByMerging fee (target + fee) (current.map PrepInput.value) := by
  rw [subtreeCost_singleton hfit]
  induction hcount : current.length using Nat.strong_induction_on generalizing current layers with
  | _ count ih =>
    rw [consolidateAll]
    by_cases hlength : 2 ≤ current.length
    · rw [if_neg (by omega)]
      have hvalues := @consolidate_values S fee layers.length current hlength
      have htxs := @consolidate_txs_eq_nil S fee layers.length current hlength
      have hround : ReachedByMerging fee (target + fee) (current.map PrepInput.value) ↔
          mergedValues fee (current.map PrepInput.value) ≠ [] ∧
          ReachedByMerging fee (target + fee) (mergedValues fee (current.map PrepInput.value) ++
            keptValues fee (current.map PrepInput.value)) := by
        constructor
        · generalize hmap : current.map PrepInput.value = values
          rintro (hle | ⟨-, hmerged, hround⟩)
          · have hone := congrArg List.length hmap
            simp only [List.length_map, List.length_singleton] at hone
            omega
          · exact ⟨hmerged, hround⟩
        · rintro ⟨hmerged, hround⟩
          exact .round (by simpa using hlength) hmerged hround
      rw [hround]
      dsimp only
      split_ifs with hnil
      · refine iff_of_false ?_ fun h => h.1 (htxs.1 hnil)
        rintro ⟨_, _, herror, -⟩
        cases herror
      · have hless := consolidate_pool_lt S current layers.length fee hnil
        have hnext := ih _ (by omega)
          ((consolidate S current layers.length fee {}).next ++
            (consolidate S current layers.length fee {}).leftover)
          (layers ++ [(consolidate S current layers.length fee {}).txs]) rfl
        rw [List.map_append, hvalues.1, hvalues.2] at hnext
        rw [hnext]
        exact (and_iff_right (mt htxs.2 hnil)).symm
    · rw [if_pos (by omega)]
      rcases current with _ | ⟨note, _ | ⟨other, rest⟩⟩
      · refine iff_of_false ?_ ?_
        · rintro ⟨_, _, hpool, source, hlast, -⟩
          obtain ⟨rfl, -⟩ := Prod.mk.inj (Except.ok.inj hpool)
          cases hlast
        · intro h
          rw [List.map_nil] at h
          cases h with
          | round hlength => cases hlength
      · constructor
        · rintro ⟨_, _, hpool, source, hlast, hle⟩
          obtain ⟨rfl, -⟩ := Prod.mk.inj (Except.ok.inj hpool)
          obtain rfl := Option.some.inj hlast
          exact .value hle
        · intro h
          rw [List.map_singleton] at h
          cases h with
          | value hle => exact ⟨_, _, rfl, note, rfl, hle⟩
          | round hlength => simp at hlength
      · simp at hlength

/-- The layers of the fallback for one funding note. -/
theorem consolidatedLayers_reached (hfit : target + fee < u64Size) (current : List PrepInput) :
    (∃ layers, consolidatedLayers S fee [target] current = .ok layers) ↔
      ReachedByMerging fee (target + fee) (current.map PrepInput.value) := by
  rw [← @consolidateAll_single S fee target hfit current []]
  unfold consolidatedLayers
  constructor
  · rintro ⟨layers, hlayers⟩
    obtain ⟨⟨pool, merged⟩, hpool, hsource⟩ := bind_eq_ok.1 hlayers
    refine ⟨pool, merged, hpool, ?_⟩
    dsimp only at hsource
    split at hsource
    · cases hsource
    · rename_i source hlast
      split_ifs at hsource with hsmall
      exact ⟨source, hlast, Nat.not_lt.1 hsmall⟩
  · rintro ⟨pool, merged, hpool, source, hlast, hle⟩
    rw [hpool, ok_bind]
    dsimp only
    rw [hlast]
    dsimp only
    rw [if_neg (Nat.not_lt.2 hle)]
    exact ⟨_, rfl⟩

/-! ## The planner on one funding note -/

theorem Zatoshis.sum_isNone {amounts : List Zatoshis}
    (h : (amounts.map Zatoshis.val).sum ≤ maxMoney) : (Zatoshis.sum amounts).isNone = false := by
  rw [Zatoshis.sum_eq, Zatoshis.ofNat?, dif_pos h]
  rfl

theorem validateTotals_of_le {available funding : List Zatoshis}
    (havailable : (available.map Zatoshis.val).sum ≤ maxMoney)
    (hfunding : (funding.map Zatoshis.val).sum ≤ maxMoney) :
    validateTotals available funding = .ok () := by
  rw [validateTotals, Zatoshis.sum_isNone havailable, Zatoshis.sum_isNone hfunding]
  rfl

/-- An exact match is used, and otherwise nothing is. -/
theorem extractDirectFunding_single (values : List ℕ) (funding : ℕ) :
    (funding ∈ values → (extractDirectFunding values [funding]).kept = []) ∧
      (funding ∉ values → extractDirectFunding values [funding] =
        ⟨List.replicate values.length false, [], [funding]⟩) := by
  have hscan : extractDirectFunding values [funding] = DirectScan.step values
      ⟨List.replicate values.length false, [], []⟩ funding := rfl
  have hnone : matchingNote values (List.replicate values.length false) funding = none ↔
      funding ∉ values := by
    rw [matchingNote, List.findIdx?_eq_none_iff]
    constructor
    · intro h hmem
      obtain ⟨index, hindex⟩ := List.mem_iff_getElem?.1 hmem
      have hlt := (List.getElem?_eq_some_iff.1 hindex).1
      have hpair : (funding, false) ∈ values.zip (List.replicate values.length false) := by
        refine List.mem_iff_getElem?.2 ⟨index, List.getElem?_zip_eq_some.2 ⟨hindex, ?_⟩⟩
        rw [List.getElem?_replicate, if_pos hlt]
      simpa using h _ hpair
    · rintro h ⟨value, taken⟩ hpair
      have hvalue := (List.of_mem_zip hpair).1
      have hne : value ≠ funding := fun hsame => h (hsame ▸ hvalue)
      simp [hne]
  rw [hscan]
  unfold DirectScan.step
  constructor
  · intro hmem
    cases hmatch : matchingNote values (List.replicate values.length false) funding with
    | none => exact absurd hmem (hnone.1 hmatch)
    | some index => rfl
  · intro hmem
    rw [hnone.2 hmem]
    rfl

theorem map_value_walletNotes (values : List ℕ) :
    (walletNotes values (List.replicate values.length false)).map PrepInput.value = values := by
  have hfrom : ∀ first : ℕ, (((values.zip (List.replicate values.length false)).zipIdx
      first).filterMap fun entry =>
        if entry.1.2 then none else some (PrepInput.wallet entry.2 entry.1.1)).map PrepInput.value =
      values := by
    induction values with
    | nil => exact fun _ => rfl
    | cons value rest ih =>
      intro first
      rw [List.length_cons, List.replicate_succ, List.zip_cons_cons, List.zipIdx_cons,
        List.filterMap_cons]
      exact congrArg (value :: ·) (ih (first + 1))
  exact hfrom 0

theorem largestNote_spec {notes : List PrepInput} :
    (∃ big, largestNote notes = some big ∧ target ≤ big.value) ↔
      ∃ note ∈ notes, target ≤ note.value := by
  have hfold : ∀ (notes : List PrepInput) (best : Option PrepInput),
      (∃ big, notes.foldl (fun best note => best.elim (some note) fun b =>
        if b.value ≤ note.value then some note else some b) best = some big ∧ target ≤ big.value) ↔
        (∃ big, best = some big ∧ target ≤ big.value) ∨ ∃ note ∈ notes, target ≤ note.value := by
    intro notes
    induction notes with
    | nil => simp
    | cons note rest ih =>
      intro best
      rw [List.foldl_cons, ih]
      cases best with
      | none => simp
      | some b =>
        rw [Option.elim_some]
        split_ifs with hle
        · simp only [Option.some.injEq, exists_eq_left', List.mem_cons, exists_eq_or_imp]
          constructor
          · rintro (hnote | hrest)
            · exact .inr (.inl hnote)
            · exact .inr (.inr hrest)
          · rintro (hb | hnote | hrest)
            · exact .inl (hb.trans hle)
            · exact .inl hnote
            · exact .inr hrest
        · simp only [Option.some.injEq, exists_eq_left', List.mem_cons, exists_eq_or_imp]
          constructor
          · rintro (hb | hrest)
            · exact .inl hb
            · exact .inr (.inr hrest)
          · rintro (hb | hnote | hrest)
            · exact .inl hb
            · exact .inl (by omega)
            · exact .inr hrest
  rw [largestNote_eq]
  refine (hfold notes none).trans ?_
  simp

/-- A fan-out is a round of its own. -/
theorem greedyLayers_reached (htarget : 0 < target) (hfit : target + fee < u64Size)
    (current : List PrepInput) : (∃ layers, greedyLayers S fee [target] current = .ok layers) ↔
      ReachedByLayers fee (target + fee) (current.map PrepInput.value) := by
  unfold greedyLayers fanOutSource
  rw [subtreeCost_singleton hfit]
  have hlargest := @largestNote_spec (target + fee) current
  split
  case h_1 big hsource =>
    obtain ⟨hbig, hle⟩ := Option.filter_eq_some_iff.1 hsource
    obtain ⟨note, hnote, hreached⟩ := hlargest.1 ⟨big, hbig, of_decide_eq_true hle⟩
    refine iff_of_true ?_ (.value (List.mem_map_of_mem hnote) hreached)
    rw [greedyLoop, if_pos rfl]
    exact ⟨_, rfl⟩
  case h_2 => exact greedyLoop_single htarget current []

theorem greedyLoop_error {remaining : List ℕ} {layers : Layers} {error : PrepError}
    (h : greedyLoop S fee remaining current layers = .error error) :
    error = .insufficientFunds := by
  fun_induction greedyLoop S fee remaining current layers with
  | case1 => cases h
  | case2 => exact (Except.error.inj h).symm
  | case3 => exact (Except.error.inj h).symm
  | case4 remaining current layers _ _ pass build _ ih => exact ih h

theorem greedyLayers_error {remaining : List ℕ} {error : PrepError}
    (h : greedyLayers S fee remaining current = .error error) : error = .insufficientFunds := by
  unfold greedyLayers at h
  split at h
  · exact greedyLoop_error h
  · exact greedyLoop_error h

theorem consolidateAll_error {layers : Layers} {error : PrepError}
    (h : consolidateAll S fee current layers = .error error) : error = .insufficientFunds := by
  fun_induction consolidateAll S fee current layers with
  | case1 => cases h
  | case2 => exact (Except.error.inj h).symm
  | case3 current layers _ build _ ih => exact ih h

theorem consolidatedLayers_error {targets : List ℕ} {error : PrepError}
    (h : consolidatedLayers S fee targets current = .error error) : error = .insufficientFunds := by
  unfold consolidatedLayers at h
  rcases bind_eq_error.1 h with hall | ⟨⟨pool, layers⟩, -, hrest⟩
  · exact consolidateAll_error hall
  · dsimp only at hrest
    split at hrest
    · exact (Except.error.inj hrest).symm
    · split_ifs at hrest
      · exact (Except.error.inj hrest).symm
      · cases hrest

theorem planPreparationGreedy_error {available funding : List Zatoshis} {feePerTx : Zatoshis}
    {error : PrepError} (havailable : (available.map Zatoshis.val).sum ≤ maxMoney)
    (hfunding : (funding.map Zatoshis.val).sum ≤ maxMoney)
    (h : planPreparationGreedy S available funding feePerTx = .error error) :
    error = .insufficientFunds := by
  unfold planPreparationGreedy at h
  rw [validateTotals_of_le havailable hfunding, ok_bind] at h
  dsimp only at h
  split_ifs at h
  · cases h
  · rcases bind_eq_error.1 h with hlayers | ⟨layers, -, hdone⟩
    · exact greedyLayers_error hlayers
    · cases hdone

/-- With totals in range, the planner fails on insufficient funds only. -/
theorem planPreparation_error {available funding : List Zatoshis} {feePerTx : Zatoshis}
    {error : PrepError} (havailable : (available.map Zatoshis.val).sum ≤ maxMoney)
    (hfunding : (funding.map Zatoshis.val).sum ≤ maxMoney)
    (h : planPreparation S available funding feePerTx = .error error) :
    error = .insufficientFunds := by
  unfold planPreparation at h
  split at h
  · unfold planPreparationViaConsolidation at h
    rw [validateTotals_of_le havailable hfunding, ok_bind] at h
    dsimp only at h
    split_ifs at h
    · cases h
    · rcases bind_eq_error.1 h with hlayers | ⟨layers, -, hdone⟩
      · exact consolidatedLayers_error hlayers
      · cases hdone
  · exact planPreparationGreedy_error havailable hfunding h

theorem validateTotals_single {available : List Zatoshis} {funding : Zatoshis}
    (havailable : (available.map Zatoshis.val).sum ≤ maxMoney) :
    validateTotals available [funding] = .ok () := by
  refine validateTotals_of_le havailable ?_
  simpa using funding.le_maxMoney

theorem fundingTargets_single {funding : Zatoshis} (hfunding : 0 < funding.val) :
    fundingTargets [funding] = [funding.val] := by
  simp [fundingTargets, sortDescending, hfunding]

theorem single_fits (funding feePerTx : Zatoshis) : funding.val + feePerTx.val < u64Size := by
  have hfundingMax := funding.le_maxMoney
  have hfeeMax := feePerTx.le_maxMoney
  unfold maxMoney at hfundingMax hfeeMax
  unfold u64Size
  omega

/-- When the greedy planner prepares one funding note that is not available. -/
theorem planPreparationGreedy_reached {available : List Zatoshis} {funding feePerTx : Zatoshis}
    (havailable : (available.map Zatoshis.val).sum ≤ maxMoney) (hfunding : 0 < funding.val)
    (hmem : funding.val ∉ available.map Zatoshis.val) :
    (∃ plan, planPreparationGreedy S available [funding] feePerTx = .ok plan) ↔
      ReachedByLayers feePerTx.val (funding.val + feePerTx.val) (available.map Zatoshis.val) := by
  obtain ⟨-, hscan⟩ := extractDirectFunding_single (available.map Zatoshis.val) funding.val
  have hwallet := map_value_walletNotes (available.map Zatoshis.val)
  rw [← hwallet, ← @greedyLayers_reached S feePerTx.val funding.val hfunding
    (single_fits funding feePerTx), planPreparationGreedy, validateTotals_single havailable,
    ok_bind, fundingTargets_single hfunding, hscan hmem]
  dsimp only
  rw [if_neg (List.cons_ne_nil _ _)]
  constructor
  · rintro ⟨plan, hplan⟩
    obtain ⟨layers, hlayers, -⟩ := bind_eq_ok.1 hplan
    exact ⟨layers, hlayers⟩
  · rintro ⟨layers, hlayers⟩
    exact ⟨_, bind_eq_ok.2 ⟨layers, hlayers, rfl⟩⟩

/-- When the planner that merges first prepares one funding note that is not available. -/
theorem planPreparationViaConsolidation_reached {available : List Zatoshis}
    {funding feePerTx : Zatoshis} (havailable : (available.map Zatoshis.val).sum ≤ maxMoney)
    (hpositive : ∀ value ∈ available.map Zatoshis.val, 0 < value) (hfunding : 0 < funding.val)
    (hmem : funding.val ∉ available.map Zatoshis.val) :
    (∃ plan, planPreparationViaConsolidation S available [funding] feePerTx = .ok plan) ↔
      ReachedByMerging feePerTx.val (funding.val + feePerTx.val)
        (available.map Zatoshis.val) := by
  obtain ⟨-, hscan⟩ := extractDirectFunding_single (available.map Zatoshis.val) funding.val
  have hwallet := map_value_walletNotes (available.map Zatoshis.val)
  set current := walletNotes (available.map Zatoshis.val)
    (List.replicate (available.map Zatoshis.val).length false)
  have hpositive' : current.filter (fun note => 0 < note.value) = current := by
    refine List.filter_eq_self.2 ?_
    intro note hnote
    refine decide_eq_true (hpositive note.value ?_)
    rw [← hwallet]
    exact List.mem_map_of_mem hnote
  rw [← hwallet, ← @consolidatedLayers_reached S feePerTx.val funding.val
    (single_fits funding feePerTx) current, planPreparationViaConsolidation,
    validateTotals_single havailable, ok_bind, fundingTargets_single hfunding, hscan hmem]
  dsimp only
  rw [if_neg (List.cons_ne_nil _ _), hpositive']
  constructor
  · rintro ⟨plan, hplan⟩
    obtain ⟨layers, hlayers, -⟩ := bind_eq_ok.1 hplan
    exact ⟨layers, hlayers⟩
  · rintro ⟨layers, hlayers⟩
    exact ⟨_, bind_eq_ok.2 ⟨layers, hlayers, rfl⟩⟩

/-- When the planner prepares one funding note. -/
theorem planPreparation_reached {available : List Zatoshis} {funding feePerTx : Zatoshis}
    (havailable : (available.map Zatoshis.val).sum ≤ maxMoney)
    (hpositive : ∀ value ∈ available.map Zatoshis.val, 0 < value) (hfunding : 0 < funding.val) :
    (∃ plan, planPreparation S available [funding] feePerTx = .ok plan) ↔
      funding.val ∈ available.map Zatoshis.val ∨
      ReachedByLayers feePerTx.val (funding.val + feePerTx.val) (available.map Zatoshis.val) ∨
      ReachedByMerging feePerTx.val (funding.val + feePerTx.val) (available.map Zatoshis.val) := by
  by_cases hmem : funding.val ∈ available.map Zatoshis.val
  · obtain ⟨hdirect, -⟩ :=
      extractDirectFunding_single (available.map Zatoshis.val) funding.val
    have hplan : planPreparationGreedy S available [funding] feePerTx = .ok ⟨[],
        (extractDirectFunding (available.map Zatoshis.val) [funding.val]).direct⟩ := by
      rw [planPreparationGreedy, validateTotals_single havailable, ok_bind,
        fundingTargets_single hfunding]
      dsimp only
      rw [if_pos (hdirect hmem)]
      rfl
    refine iff_of_true ?_ (.inl hmem)
    rw [planPreparation, hplan]
    exact ⟨_, rfl⟩
  · rw [or_iff_right hmem, ← @planPreparationGreedy_reached S _ _ _ havailable hfunding hmem,
      ← @planPreparationViaConsolidation_reached S _ _ _ havailable hpositive hfunding hmem,
      planPreparation]
    cases hresult : planPreparationGreedy S available [funding] feePerTx with
    | ok plan => simp
    | error error =>
      obtain rfl := planPreparationGreedy_error havailable (by simpa using funding.le_maxMoney)
        hresult
      simp

end VizorWallet.Migration
