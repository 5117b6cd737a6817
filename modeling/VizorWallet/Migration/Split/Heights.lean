import VizorWallet.Library.Outcome
import VizorWallet.Library.Shuffle
import VizorWallet.Migration.Preparation.Residual
import VizorWallet.Migration.Split.Accounting
import VizorWallet.Migration.Store.Tables

/-!
# The heights of the preparation stages

Every stage gets the height of its broadcast before it is signed: the stages of a layer are
shuffled and follow one another after a drawn delay, and the next layer starts when the last of
them is confirmed.

## Main definitions

* `plannedPreparationScheduledHeights` — the heights of the stages.
* `Dense` — every layer has a transaction.

## Main results

* `Placed` — what the heights of the layers so far are.
* `PlannedBy.layersOf` — the stages of a plan come from layers that are not empty.
* `preparation_heights` — layers follow one another, and no layer of a plan is missing.
-/

namespace VizorWallet.Migration

open Reorg (PreparationTimingPolicy)
open Store (WalletNetwork MigrationTimingPolicy)

/-! ## Scheduling -/

/-- The mean and the largest delay. -/
def preparationScheduleParameters : WalletNetwork → MigrationTimingPolicy → ℕ × ℕ
  | .regtest, .fastTestnet => (4, 16)
  | .regtest, _ => (1, 4)
  | .test, .fastTestnet => (4, 16)
  | .main, _ | .test, _ => (16, 96)

def densePreparationTransactionThreshold : ℕ := 3

def preparationScheduleParametersForTransactionCount (network : WalletNetwork)
    (timingPolicy : MigrationTimingPolicy) (transactionCount : ℕ) : ℕ × ℕ :=
  let (meanDelayBlocks, maxDelayBlocks) := preparationScheduleParameters network timingPolicy
  let effectiveMean :=
    if transactionCount > densePreparationTransactionThreshold then max (meanDelayBlocks / 2) 1
    else meanDelayBlocks
  (effectiveMean, maxDelayBlocks)

/-- The random stream: how it shuffles the stages of each layer, and its samples of the delays. The
samples are those of the mean delay; the loop rejects those above the largest delay. -/
structure PreparationRng (maxDelayBlocks : ℕ) where
  shuffle : ℕ → Shuffle ℕ
  sampler : Sampler maxDelayBlocks

/-- Where the scheduling stands: the heights, the last height, and the samples drawn. -/
structure HeightSchedule where
  heights : List ℕ
  reached : ℕ
  position : ℕ

def scheduledHeightOverflow : String := "Migration preparation scheduled height overflow"

def layerHeightOverflow : String := "Migration preparation layer height overflow"

def missingLayer (layerIndex : ℕ) : String :=
  "Migration preparation schedule is missing layer " ++ toString layerIndex

section Scheduling

variable {maxDelayBlocks : ℕ} (policy : PreparationTimingPolicy)
  (rng : PreparationRng maxDelayBlocks) (confirmations : ℕ) (stageLayers : List ℕ)

/-- One stage of a layer. -/
def scheduleStage (schedule : HeightSchedule) (stageIndex : ℕ) : Except String HeightSchedule := do
  if policy = .zip318Spaced then
    let (delay, position) := rng.sampler.draw schedule.position
    let scheduledHeight := schedule.reached + delay
    ensure (scheduledHeight < 2 ^ 32) scheduledHeightOverflow
    return ⟨schedule.heights.set stageIndex scheduledHeight, scheduledHeight, position⟩
  else
    return { schedule with heights := schedule.heights.set stageIndex schedule.reached }

def stagesOfLayer (layerIndex : ℕ) : List ℕ :=
  stageLayers.zipIdx.filterMap fun (layer, stageIndex) =>
    if layer = layerIndex then some stageIndex else none

/-- One layer. `confirmations` is `denomination_confirmations_required()`. -/
def scheduleLayer (schedule : HeightSchedule) (layerIndex : ℕ) : Except String HeightSchedule := do
  let stageIndices := stagesOfLayer stageLayers layerIndex
  ensure (stageIndices ≠ []) (missingLayer layerIndex)
  let stageIndices :=
    if policy = .zip318Spaced then (rng.shuffle layerIndex).shuffle stageIndices else stageIndices
  let schedule ← stageIndices.foldlM (scheduleStage policy rng) schedule
  ensure (schedule.reached + confirmations < 2 ^ 32) layerHeightOverflow
  return { schedule with reached := schedule.reached + confirmations }

end Scheduling

def plannedPreparationScheduledHeights (network : WalletNetwork)
    (preparationPolicy : PreparationTimingPolicy) (timingPolicy : MigrationTimingPolicy)
    (targetHeight : ℕ) (stageLayers : List ℕ) (confirmations : ℕ)
    (rng : PreparationRng (preparationScheduleParametersForTransactionCount network timingPolicy
      stageLayers.length).2) : Except String (List ℕ) :=
  match stageLayers.max? with
  | none => .ok []
  | some lastLayer => do
    let schedule ← (List.range (lastLayer + 1)).foldlM
      (scheduleLayer preparationPolicy rng confirmations stageLayers)
      ⟨List.replicate stageLayers.length 0, targetHeight - 1, 0⟩
    return schedule.heights

variable {maxDelayBlocks confirmations base : ℕ} {policy : PreparationTimingPolicy}
  {rng : PreparationRng maxDelayBlocks} {stageLayers : List ℕ}
  {schedule schedule' : HeightSchedule}

theorem mem_stagesOfLayer {layerIndex stageIndex : ℕ} :
    stageIndex ∈ stagesOfLayer stageLayers layerIndex ↔
      stageLayers[stageIndex]? = some layerIndex := by
  simp only [stagesOfLayer, List.mem_filterMap, Prod.exists, List.mk_mem_zipIdx_iff_getElem?]
  grind

/-! ## What a layer does -/

/-- What some stages, scheduled one after the other, do to the heights. -/
structure Advance (stages : List ℕ) (before after : HeightSchedule) : Prop where
  length : after.heights.length = before.heights.length
  reached : before.reached ≤ after.reached
  within : ∀ stage ∈ stages, ∀ height, after.heights[stage]? = some height →
    before.reached ≤ height ∧ height ≤ after.reached
  others : ∀ stage ∉ stages, after.heights[stage]? = before.heights[stage]?

theorem scheduleStage_advance {stageIndex : ℕ}
    (h : scheduleStage policy rng schedule stageIndex = .ok schedule') :
    Advance [stageIndex] schedule schedule' := by
  have hset : ∀ height position, schedule.reached ≤ height →
      Advance [stageIndex] schedule
        ⟨schedule.heights.set stageIndex height, height, position⟩ := by
    refine fun height position hle => ⟨List.length_set, hle, fun stage hstage other hother => ?_,
      fun stage hstage => ?_⟩
    · obtain rfl := List.mem_singleton.1 hstage
      have hlt := (List.getElem?_eq_some_iff.1 hother).1
      rw [List.length_set] at hlt
      rw [List.getElem?_set_self hlt] at hother
      cases hother
      exact ⟨hle, le_rfl⟩
    · exact List.getElem?_set_ne fun hsame => hstage (List.mem_singleton.2 hsame.symm)
  unfold scheduleStage at h
  split_ifs at h
  · simp only [bind_eq_ok, ensure_eq_ok, pure_eq_ok] at h
    obtain ⟨-, -, rfl⟩ := h
    exact hset _ _ (Nat.le_add_right _ _)
  · cases h
    exact hset _ _ le_rfl

theorem Advance.trans {stages more : List ℕ} {before middle after : HeightSchedule}
    (h : Advance stages before middle) (h' : Advance more middle after) :
    Advance (stages ++ more) before after := by
  refine ⟨h'.length.trans h.length, h.reached.trans h'.reached,
    fun stage hstage height hheight => ?_, fun stage hstage => ?_⟩
  · by_cases hmore : stage ∈ more
    · obtain ⟨hle, hge⟩ := h'.within stage hmore height hheight
      exact ⟨h.reached.trans hle, hge⟩
    · rw [h'.others stage hmore] at hheight
      obtain ⟨hle, hge⟩ := h.within stage ((List.mem_append.1 hstage).resolve_right hmore) height
        hheight
      exact ⟨hle, hge.trans h'.reached⟩
  · obtain ⟨hfirst, hmore⟩ := not_or.1 (List.mem_append.not.1 hstage)
    rw [h'.others stage hmore, h.others stage hfirst]

theorem foldlM_scheduleStage_advance {stages : List ℕ}
    (h : stages.foldlM (scheduleStage policy rng) schedule = .ok schedule') :
    Advance stages schedule schedule' := by
  induction stages generalizing schedule with
  | nil =>
    obtain rfl := pure_eq_ok.1 h
    exact ⟨rfl, le_rfl, nofun, fun _ _ => rfl⟩
  | cons stage rest ih =>
    rw [List.foldlM_cons, bind_eq_ok] at h
    obtain ⟨middle, hstage, hrest⟩ := h
    exact (scheduleStage_advance hstage).trans (ih hrest)

/-- A layer schedules its stages and leaves room for their confirmations. -/
theorem scheduleLayer_advance {layerIndex : ℕ}
    (h : scheduleLayer policy rng confirmations stageLayers schedule layerIndex = .ok schedule') :
    ∃ last, Advance (stagesOfLayer stageLayers layerIndex) schedule
        ⟨schedule'.heights, last, schedule'.position⟩ ∧
      schedule'.reached = last + confirmations := by
  simp only [scheduleLayer, bind_eq_ok, ensure_eq_ok, pure_eq_ok] at h
  obtain ⟨-, -, middle, hstages, -, -, rfl⟩ := h
  refine ⟨middle.reached, ?_, rfl⟩
  split_ifs at hstages
  · have hadvance := foldlM_scheduleStage_advance hstages
    refine { hadvance with
      within := fun stage hstage => hadvance.within stage ?_
      others := fun stage hstage => hadvance.others stage ?_ }
    · exact (rng.shuffle layerIndex).mem_shuffle.2 hstage
    · exact (rng.shuffle layerIndex).mem_shuffle.not.2 hstage
  · exact foldlM_scheduleStage_advance hstages

/-! ## Layer after layer -/

/-- The layers below `done` are scheduled, each after the ones before it. -/
structure Placed (base confirmations : ℕ) (stageLayers : List ℕ) (done : ℕ)
    (schedule : HeightSchedule) : Prop where
  length : schedule.heights.length = stageLayers.length
  base_le : base ≤ schedule.reached
  bounded : ∀ (stage layer height : ℕ), stageLayers[stage]? = some layer → layer < done →
    schedule.heights[stage]? = some height →
    base ≤ height ∧ height + confirmations ≤ schedule.reached
  ordered : ∀ (stage stage' layer layer' height height' : ℕ),
    stageLayers[stage]? = some layer → stageLayers[stage']? = some layer' →
    layer < layer' → layer' < done →
    schedule.heights[stage]? = some height → schedule.heights[stage']? = some height' →
    height + confirmations ≤ height'

theorem Placed.layer {done : ℕ} (h : Placed base confirmations stageLayers done schedule)
    (hlayer : scheduleLayer policy rng confirmations stageLayers schedule done = .ok schedule') :
    Placed base confirmations stageLayers (done + 1) schedule' := by
  obtain ⟨last, hadvance, hreached⟩ := scheduleLayer_advance hlayer
  have hbase := h.base_le
  have hlast := hadvance.reached
  dsimp only at hlast
  -- a stage of an earlier layer keeps its height
  have hold : ∀ (stage layer : ℕ), stageLayers[stage]? = some layer → layer < done →
      schedule'.heights[stage]? = schedule.heights[stage]? := by
    intro stage layer hstage hlt
    refine hadvance.others stage fun hmem => ?_
    rw [mem_stagesOfLayer, hstage, Option.some.injEq] at hmem
    omega
  have hnew : ∀ (stage height : ℕ), stageLayers[stage]? = some done →
      schedule'.heights[stage]? = some height → schedule.reached ≤ height ∧ height ≤ last :=
    fun stage height hstage => hadvance.within stage (mem_stagesOfLayer.2 hstage) height
  refine ⟨hadvance.length.trans h.length, by omega, fun stage layer height hstage hlt hheight => ?_,
    fun stage stage' layer layer' height height' hstage hstage' hlt hlt' hheight hheight' => ?_⟩
  · obtain hlt | rfl := Nat.lt_succ_iff_lt_or_eq.1 hlt
    · rw [hold stage layer hstage hlt] at hheight
      have := h.bounded stage layer height hstage hlt hheight
      omega
    · have := hnew stage height hstage hheight
      omega
  · rw [hold stage layer hstage (by omega)] at hheight
    obtain hlt' | rfl := Nat.lt_succ_iff_lt_or_eq.1 hlt'
    · rw [hold stage' layer' hstage' hlt'] at hheight'
      exact h.ordered stage stage' layer layer' height height' hstage hstage' hlt hlt' hheight
        hheight'
    · have hbelow := h.bounded stage layer height hstage hlt hheight
      have habove := hnew stage' height' hstage' hheight'
      omega

theorem placed_range {done : ℕ} (h : Placed base confirmations stageLayers 0 schedule)
    (hrun : (List.range done).foldlM (scheduleLayer policy rng confirmations stageLayers) schedule =
      .ok schedule') : Placed base confirmations stageLayers done schedule' := by
  induction done generalizing schedule' with
  | zero =>
    obtain rfl := pure_eq_ok.1 hrun
    exact h
  | succ done ih =>
    rw [List.range_succ, List.foldlM_append, bind_eq_ok] at hrun
    obtain ⟨middle, hmiddle, hlast⟩ := hrun
    rw [List.foldlM_cons, bind_eq_ok] at hlast
    obtain ⟨final, hfinal, hend⟩ := hlast
    obtain rfl := pure_eq_ok.1 hend
    exact (ih hmiddle).layer hfinal

/-- Later layers are scheduled after the confirmations of earlier ones. -/
theorem plannedPreparationScheduledHeights_ordered {network : WalletNetwork}
    {timingPolicy : MigrationTimingPolicy} {targetHeight : ℕ} {heights : List ℕ}
    {rng : PreparationRng (preparationScheduleParametersForTransactionCount network timingPolicy
      stageLayers.length).2}
    (h : plannedPreparationScheduledHeights network policy timingPolicy targetHeight stageLayers
      confirmations rng = .ok heights) :
    heights.length = stageLayers.length ∧ (∀ height ∈ heights, targetHeight - 1 ≤ height) ∧
      ∀ (stage stage' layer layer' height height' : ℕ),
        stageLayers[stage]? = some layer → stageLayers[stage']? = some layer' → layer < layer' →
        heights[stage]? = some height → heights[stage']? = some height' →
        height + confirmations ≤ height' := by
  unfold plannedPreparationScheduledHeights at h
  split at h
  · rename_i hnone
    cases h
    rw [List.max?_eq_none_iff] at hnone
    simp [hnone]
  · rename_i lastLayer hmax
    rw [bind_eq_ok] at h
    obtain ⟨final, hrun, hend⟩ := h
    obtain rfl := pure_eq_ok.1 hend
    have hplaced : Placed (targetHeight - 1) confirmations stageLayers (lastLayer + 1) final :=
      placed_range ⟨List.length_replicate, le_rfl, by omega, by omega⟩ hrun
    have hlast : ∀ layer ∈ stageLayers, layer < lastLayer + 1 := fun layer hlayer =>
      Nat.lt_succ_of_le ((List.max?_eq_some_iff.1 hmax).2 layer hlayer)
    refine ⟨hplaced.length, fun height hheight => ?_,
      fun stage stage' layer layer' height height' hstage hstage' hlt =>
        hplaced.ordered stage stage' layer layer' height height' hstage hstage' hlt
          (hlast layer' (List.mem_of_getElem? hstage'))⟩
    obtain ⟨stage, hget⟩ := List.mem_iff_getElem?.1 hheight
    obtain ⟨layer, hlayer⟩ : ∃ layer, stageLayers[stage]? = some layer := by
      have hlt := (List.getElem?_eq_some_iff.1 hget).1
      rw [hplaced.length] at hlt
      exact ⟨_, List.getElem?_eq_getElem hlt⟩
    exact (hplaced.bounded stage layer height hlayer (hlast layer (List.mem_of_getElem? hlayer))
      hget).1

/-! ## When scheduling fails -/

theorem length_stagesOfLayer (stageLayers : List ℕ) (layerIndex : ℕ) :
    (stagesOfLayer stageLayers layerIndex).length = stageLayers.count layerIndex := by
  have hfrom : ∀ first, ((stageLayers.zipIdx first).filterMap fun (layer, stageIndex) =>
      if layer = layerIndex then some stageIndex else none).length =
        stageLayers.count layerIndex := by
    induction stageLayers with
    | nil => exact fun _ => rfl
    | cons layer rest ih =>
      intro first
      rw [List.zipIdx_cons, List.filterMap_cons, List.count_cons]
      by_cases hlayer : layer = layerIndex <;> simp [hlayer, ih]
  exact hfrom 0

theorem countP_lt_succ (l : List ℕ) (n : ℕ) :
    l.countP (· < n + 1) = l.countP (· < n) + l.count n := by
  induction l with
  | nil => rfl
  | cons a rest ih => grind

/-- Heights that stay in range are scheduled. -/
theorem foldlM_scheduleStage_ok (policy : PreparationTimingPolicy)
    (rng : PreparationRng maxDelayBlocks) (stages : List ℕ) (schedule : HeightSchedule)
    (h : schedule.reached + stages.length * maxDelayBlocks < 2 ^ 32) :
    ∃ schedule', stages.foldlM (scheduleStage policy rng) schedule = .ok schedule' ∧
      schedule'.reached ≤ schedule.reached + stages.length * maxDelayBlocks := by
  induction stages generalizing schedule with
  | nil => exact ⟨schedule, rfl, Nat.le_add_right _ _⟩
  | cons stage rest ih =>
    rw [List.length_cons, Nat.succ_mul] at h
    have hstage : ∃ next, scheduleStage policy rng schedule stage = .ok next ∧
        next.reached ≤ schedule.reached + maxDelayBlocks := by
      have hdelay := rng.sampler.draw_le schedule.position
      unfold scheduleStage
      split_ifs
      · have hle := Nat.add_le_add_left hdelay schedule.reached
        exact ⟨_, bind_eq_ok.2 ⟨(), ensure_of _ (hle.trans_lt (by omega)), rfl⟩, hle⟩
      · exact ⟨_, rfl, Nat.le_add_right _ _⟩
    obtain ⟨next, hnext, hle⟩ := hstage
    obtain ⟨schedule', hrest, hreached⟩ := ih next (by omega)
    refine ⟨schedule', ?_, ?_⟩
    · rw [List.foldlM_cons, hnext, ok_bind, hrest]
    · rw [List.length_cons, Nat.succ_mul]
      omega

theorem scheduleLayer_ok (policy : PreparationTimingPolicy) (rng : PreparationRng maxDelayBlocks)
    {layerIndex : ℕ} (hlayer : layerIndex ∈ stageLayers)
    (h : schedule.reached + stageLayers.count layerIndex * maxDelayBlocks + confirmations <
      2 ^ 32) :
    ∃ schedule', scheduleLayer policy rng confirmations stageLayers schedule layerIndex =
        .ok schedule' ∧
      schedule'.reached ≤
        schedule.reached + stageLayers.count layerIndex * maxDelayBlocks + confirmations := by
  have hlength := length_stagesOfLayer stageLayers layerIndex
  have hpos : stagesOfLayer stageLayers layerIndex ≠ [] := by
    rw [← List.length_pos_iff, hlength]
    exact List.count_pos_iff.2 hlayer
  set stages := if policy = .zip318Spaced then
    (rng.shuffle layerIndex).shuffle (stagesOfLayer stageLayers layerIndex)
    else stagesOfLayer stageLayers layerIndex with hstages
  have hsame : stages.length = stageLayers.count layerIndex := by
    rw [hstages, ← hlength]
    split_ifs
    · exact (rng.shuffle layerIndex).length_shuffle _
    · rfl
  obtain ⟨middle, hmiddle, hle⟩ := foldlM_scheduleStage_ok policy rng stages schedule
    (by rw [hsame]; omega)
  rw [hsame] at hle
  refine ⟨_, bind_eq_ok.2 ⟨(), ensure_of _ hpos, bind_eq_ok.2 ⟨middle, hmiddle,
    bind_eq_ok.2 ⟨(), ensure_of _ (by omega), rfl⟩⟩⟩, ?_⟩
  exact Nat.add_le_add_right hle _

theorem foldlM_scheduleLayer_ok (policy : PreparationTimingPolicy)
    (rng : PreparationRng maxDelayBlocks) {layerCount : ℕ}
    (hlayers : ∀ layerIndex < layerCount, layerIndex ∈ stageLayers) (schedule : HeightSchedule)
    (h : schedule.reached + stageLayers.length * maxDelayBlocks + layerCount * confirmations <
      2 ^ 32) :
    ∃ schedule', (List.range layerCount).foldlM
        (scheduleLayer policy rng confirmations stageLayers) schedule = .ok schedule' := by
  have hrun : ∀ done ≤ layerCount, ∃ schedule', (List.range done).foldlM
      (scheduleLayer policy rng confirmations stageLayers) schedule = .ok schedule' ∧
      schedule'.reached ≤ schedule.reached + stageLayers.countP (· < done) * maxDelayBlocks +
        done * confirmations := by
    intro done
    induction done with
    | zero => exact fun _ => ⟨schedule, rfl, by omega⟩
    | succ done ih =>
      intro hdone
      obtain ⟨middle, hmiddle, hreached⟩ := ih (by omega)
      have hcount := countP_lt_succ stageLayers done
      have hle := Nat.mul_le_mul_right maxDelayBlocks
        (List.countP_le_length (l := stageLayers) (p := fun layer => decide (layer < done + 1)))
      have hconfirmations := Nat.mul_le_mul_right confirmations hdone
      rw [hcount, Nat.add_mul] at hle
      rw [Nat.succ_mul] at hconfirmations
      have hbound : middle.reached + stageLayers.count done * maxDelayBlocks + confirmations <
          2 ^ 32 := by omega
      obtain ⟨final, hfinal, hlast⟩ := scheduleLayer_ok policy rng (hlayers done hdone) hbound
      refine ⟨final, ?_, ?_⟩
      · rw [List.range_succ, List.foldlM_append, hmiddle, ok_bind, List.foldlM_cons, hfinal]
        rfl
      · rw [hcount, Nat.add_mul, Nat.succ_mul]
        omega
  obtain ⟨schedule', hfinal, -⟩ := hrun layerCount le_rfl
  exact ⟨schedule', hfinal⟩

theorem missingLayer_ne (layerIndex : ℕ) :
    missingLayer layerIndex ≠ scheduledHeightOverflow ∧
      missingLayer layerIndex ≠ layerHeightOverflow := by
  -- the texts differ within the first characters
  have hbefore (text : String) (htext : "Migration preparation schedule is".toList ≠
      text.toList.take 33) : missingLayer layerIndex ≠ text := by
    intro hsame
    have htake := congrArg (fun text => text.toList.take 33) hsame
    dsimp only [missingLayer] at htake
    rw [String.toList_append, List.take_append_of_le_length (by decide +kernel)] at htake
    refine htext (Eq.trans ?_ htake)
    decide +kernel
  exact ⟨hbefore _ (by decide +kernel), hbefore _ (by decide +kernel)⟩

/-- A layer fails when it has no stage, and else on an overflow. -/
theorem scheduleLayer_error {layerIndex : ℕ} {error : String}
    (h : scheduleLayer policy rng confirmations stageLayers schedule layerIndex = .error error) :
    error = missingLayer layerIndex ∧ layerIndex ∉ stageLayers ∨
      error = scheduledHeightOverflow ∨ error = layerHeightOverflow := by
  simp only [scheduleLayer, bind_eq_error, ensure_eq_error] at h
  obtain ⟨hnone, rfl⟩ | ⟨_, -, hfold | ⟨_, -, ⟨-, rfl⟩ | ⟨_, -, h⟩⟩⟩ := h
  · refine .inl ⟨rfl, fun hmem => hnone ?_⟩
    rw [← List.length_pos_iff, length_stagesOfLayer]
    exact List.count_pos_iff.2 hmem
  · obtain ⟨middle, stage, -, hstage⟩ := exists_of_foldlM_eq_error hfold
    unfold scheduleStage at hstage
    split_ifs at hstage
    · obtain ⟨-, rfl⟩ | ⟨_, -, h⟩ := (bind_eq_error.trans (or_congr_left ensure_eq_error)).1 hstage
      · exact .inr (.inl rfl)
      · cases h
    · cases hstage
  · exact .inr (.inr rfl)
  · cases h

/-- Scheduling stages that fill their layers fails on an overflow only. -/
theorem plannedPreparationScheduledHeights_filled {network : WalletNetwork}
    {timingPolicy : MigrationTimingPolicy} {targetHeight layerCount : ℕ}
    (hlayers : ∀ layerIndex, layerIndex ∈ stageLayers ↔ layerIndex < layerCount)
    (rng : PreparationRng (preparationScheduleParametersForTransactionCount network timingPolicy
      stageLayers.length).2) :
    let heights := plannedPreparationScheduledHeights network policy timingPolicy targetHeight
      stageLayers confirmations rng
    (∀ layerIndex, heights ≠ .error (missingLayer layerIndex)) ∧
      (targetHeight - 1 + stageLayers.length *
        (preparationScheduleParametersForTransactionCount network timingPolicy
          stageLayers.length).2 + layerCount * confirmations < 2 ^ 32 →
        ∃ planned, heights = .ok planned) := by
  unfold plannedPreparationScheduledHeights
  split
  · exact ⟨nofun, fun _ => ⟨[], rfl⟩⟩
  · rename_i lastLayer hmax
    obtain ⟨hmem, hle⟩ := List.max?_eq_some_iff.1 hmax
    have hcount : lastLayer + 1 = layerCount := by
      have hlast := (hlayers lastLayer).1 hmem
      have hbelow := hle (layerCount - 1) ((hlayers _).2 (by omega))
      omega
    refine ⟨fun layerIndex herror => ?_, fun hbound => ?_⟩
    · obtain herror | ⟨_, -, hend⟩ := bind_eq_error.1 herror
      · obtain ⟨middle, layer, hlayer, hfails⟩ := exists_of_foldlM_eq_error herror
        obtain ⟨-, hmissing⟩ | hoverflow | hoverflow := scheduleLayer_error hfails
        · refine hmissing ((hlayers layer).2 ?_)
          rw [← hcount]
          exact List.mem_range.1 hlayer
        · exact (missingLayer_ne layerIndex).1 hoverflow
        · exact (missingLayer_ne layerIndex).2 hoverflow
      · cases hend
    · obtain ⟨final, hfinal⟩ := foldlM_scheduleLayer_ok policy rng
        (fun layerIndex hlt => (hlayers layerIndex).2 hlt)
        ⟨List.replicate stageLayers.length 0, targetHeight - 1, 0⟩ hbound
      refine ⟨final.heights, ?_⟩
      rw [hcount, hfinal]
      rfl

/-! ## The layers of a plan -/

/-- Every layer has a transaction. -/
def Dense (layers : Layers) : Prop := [] ∉ layers

variable {S : UnstableSort PrepInput.value} {fee : ℕ} {layers : Layers}

theorem Dense.nil : Dense [] := List.not_mem_nil

theorem Dense.concat {txs : List PrepTransaction} (h : Dense layers) (htxs : txs ≠ []) :
    Dense (layers ++ [txs]) := by
  intro hmem
  obtain hmem | hmem := List.mem_append.1 hmem
  · exact h hmem
  · exact htxs (List.mem_singleton.1 hmem).symm

theorem length_addTransaction (layers : Layers) (layer : ℕ) (tx : PrepTransaction) :
    (addTransaction layers layer tx).length = max layers.length (layer + 1) := by
  simp only [addTransaction, ensureLayer, List.length_modify, List.length_append,
    List.length_replicate]
  omega

/-- A transaction of the next layer, or of one before it. -/
theorem Dense.addTransaction {layer : ℕ} (h : Dense layers) (hlayer : layer ≤ layers.length)
    (tx : PrepTransaction) : Dense (addTransaction layers layer tx) := by
  intro hmem
  obtain ⟨j, hj⟩ := List.mem_iff_getElem?.1 hmem
  rw [VizorWallet.Migration.addTransaction, List.getElem?_modify, Option.map_eq_map,
    Option.map_eq_some_iff] at hj
  obtain ⟨txs, htxs, hempty⟩ := hj
  split_ifs at hempty with hsame
  · exact List.append_ne_nil_of_right_ne_nil _ (List.cons_ne_nil _ _) hempty
  · -- a layer that is created is the one that gets the transaction
    have hlt := (List.getElem?_eq_some_iff.1 htxs).1
    simp only [ensureLayer, List.length_append, List.length_replicate] at hlt
    rw [ensureLayer, List.getElem?_append_left (by omega)] at htxs
    exact h (List.mem_of_getElem? (hempty ▸ htxs))

theorem buildSplit_dense {source : PrepInput} {sourceValue layer : ℕ} {targets : List ℕ}
    (h : Dense layers) (hlayer : layer ≤ layers.length) :
    Dense (buildSplit source sourceValue targets fee layer layers) ∧
      layers.length ≤ (buildSplit source sourceValue targets fee layer layers).length := by
  induction hn : targets.length using Nat.strong_induction_on
    generalizing targets layers source sourceValue layer with
  | _ n ih =>
    subst hn
    have hroot := fun tx => h.addTransaction hlayer tx
    have hgrows : ∀ tx, layers.length ≤ (addTransaction layers layer tx).length ∧
        layer + 1 ≤ (addTransaction layers layer tx).length := by
      intro tx
      rw [length_addTransaction]
      omega
    rcases Nat.lt_or_ge 1 (splitDepth targets.length) with hnode | hleaf
    · rw [buildSplit_node hnode]
      -- the children start in the layer after the root
      have hchildren : ∀ (groups : List (List ℕ)) (first transaction : ℕ) (layers : Layers),
          (∀ g ∈ groups, g ∈ splitGroups targets) → Dense layers → layer + 1 ≤ layers.length →
          let final := (groups.zipIdx first).foldl (fun layers' entry =>
            buildSplit (childNote layer transaction entry.2 fee entry.1)
              (subtreeCost entry.1 fee).2 entry.1 fee (layer + 1) layers') layers
          Dense final ∧ layers.length ≤ final.length := by
        intro groups
        induction groups with
        | nil => exact fun _ _ _ _ hdense _ => ⟨hdense, le_rfl⟩
        | cons g rest ihrest =>
          intro first transaction layers hmem hdense hlt
          obtain ⟨hchild, hgrown⟩ := @ih g.length
            (length_of_mem_splitGroups hnode (hmem g List.mem_cons_self)).2 layers
            (childNote layer transaction first fee g) (subtreeCost g fee).2 (layer + 1) g hdense
            hlt rfl
          obtain ⟨hrest, hmore⟩ := ihrest (first + 1) transaction _
            (fun g' hg' => hmem g' (List.mem_cons_of_mem _ hg')) hchild (hlt.trans hgrown)
          exact ⟨hrest, hgrown.trans hmore⟩
      refine And.imp_right (hgrows _).1.trans (hchildren (splitGroups targets) 0
        (layerLength layers layer) _ (fun _ hg => hg) (hroot _) (hgrows _).2)
    · rw [buildSplit_leaf hleaf]
      exact ⟨hroot _, (hgrows _).1⟩

theorem greedyLoop_dense {remaining : List ℕ} {current : List PrepInput} {final : Layers}
    (h : Dense layers) (hloop : greedyLoop S fee remaining current layers = .ok final) :
    Dense final := by
  fun_induction greedyLoop S fee remaining current layers with
  | case1 =>
    obtain rfl := Except.ok.inj hloop
    exact h
  | case2 => cases hloop
  | case3 => cases hloop
  | case4 =>
    rename_i hnone ih
    exact ih (h.concat hnone) hloop

theorem mergeResidual_dense (h : Dense layers) : Dense (mergeResidual S fee layers) := by
  fun_induction mergeResidual S fee layers with
  | case1 => exact h
  | case2 => exact h
  | case3 =>
    rename_i hnone ih
    exact ih (h.concat hnone)

theorem consolidateAll_dense {current rest : List PrepInput} {final : Layers} (h : Dense layers)
    (hloop : consolidateAll S fee current layers = .ok (rest, final)) : Dense final := by
  fun_induction consolidateAll S fee current layers with
  | case1 =>
    obtain ⟨rfl, rfl⟩ := Prod.mk.inj (Except.ok.inj hloop)
    exact h
  | case2 => cases hloop
  | case3 =>
    rename_i hnone ih
    exact ih (h.concat hnone) hloop

theorem greedyLayers_dense {remaining : List ℕ} {current : List PrepInput} {final : Layers}
    (h : greedyLayers S fee remaining current = .ok final) : Dense final := by
  unfold greedyLayers at h
  split at h
  · exact greedyLoop_dense (buildSplit_dense .nil le_rfl).1 h
  · exact greedyLoop_dense .nil h

theorem consolidatedLayers_dense {targets : List ℕ} {current : List PrepInput} {final : Layers}
    (h : consolidatedLayers S fee targets current = .ok final) : Dense final := by
  simp only [consolidatedLayers, bind_eq_ok] at h
  obtain ⟨⟨notes, layers⟩, hall, h⟩ := h
  dsimp only at h
  split at h
  · cases h
  · split_ifs at h
    obtain rfl := Except.ok.inj h
    exact (buildSplit_dense (consolidateAll_dense .nil hall) le_rfl).1

theorem Dense.relabel (h : Dense layers) : Dense (relabel layers) := by
  intro hmem
  obtain ⟨layer, hlayer⟩ := List.mem_iff_getElem?.1 hmem
  rw [VizorWallet.Migration.relabel, List.getElem?_mapIdx, Option.map_eq_some_iff] at hlayer
  obtain ⟨txs, htxs, hempty⟩ := hlayer
  rw [List.mapIdx_eq_nil_iff] at hempty
  exact h (List.mem_of_getElem? (hempty ▸ htxs))

theorem planPreparation_dense {available funding : List Zatoshis} {feePerTx : Zatoshis}
    {plan : PreparationPlan} (h : planPreparation S available funding feePerTx = .ok plan) :
    Dense plan.layers := by
  unfold planPreparation at h
  split at h
  · obtain ⟨-, rfl⟩ | ⟨-, layers, hlayers, rfl⟩ := planPreparationViaConsolidation_ok h
    · exact .nil
    · exact (consolidatedLayers_dense hlayers).relabel
  · obtain ⟨-, rfl⟩ | ⟨-, layers, hlayers, rfl⟩ := planPreparationGreedy_ok h
    · exact .nil
    · exact (mergeResidual_dense (greedyLayers_dense hlayers)).relabel

/-- The layers of the stages of a plan: those of the transactions of some preparation. -/
theorem translatePreparationPlan_layers {preparation : PreparationPlan}
    {denominations : DenominationPlan} {positions fundingValues : List ℕ} {feePerStage : ℕ}
    {plan : PaddedDenominationPlan}
    (h : translatePreparationPlan preparation denominations positions fundingValues feePerStage =
      .ok plan) :
    plan.stages.map SplitStagePlan.layerIndex =
        (locatedTransactions preparation.layers).map (·.1.1) ∧
      plan.layerCount = preparation.layers.length := by
  have hfold : ∀ (located : List ((ℕ × ℕ) × PrepTransaction)) (state final : Translation),
      located.foldlM (fun state entry =>
        state.transaction positions feePerStage entry.1.1 entry.1.2 entry.2) state =
          (.ok final : Except String Translation) →
      final.stages.map SplitStagePlan.layerIndex =
        state.stages.map SplitStagePlan.layerIndex ++ located.map (·.1.1) := by
    intro located
    induction located with
    | nil =>
      intro state final hrun
      obtain rfl := pure_eq_ok.1 hrun
      simp
    | cons entry rest ih =>
      intro state final hrun
      rw [List.foldlM_cons, bind_eq_ok] at hrun
      obtain ⟨next, hnext, hrest⟩ := hrun
      rw [ih next final hrest]
      simp only [Translation.transaction, bind_eq_ok, pure_eq_ok] at hnext
      obtain ⟨-, -, -, -, -, -, -, -, -, -, -, -, -, -, rfl⟩ := hnext
      simp
  simp only [translatePreparationPlan, bind_eq_ok, pure_eq_ok] at h
  obtain ⟨_, -, final, hfinal, -, -, rfl⟩ := h
  exact ⟨by simpa using hfold _ _ final hfinal, rfl⟩

theorem finishPlan_layers {S : PlannerSorts} {context : PlanningContext}
    {crossingValues fundingValues : List ℕ} {preparation : PreparationPlan}
    {feePerStage migrationFee minimumOutput : ℕ} {plan : PaddedDenominationPlan}
    (h : finishPlan S context crossingValues fundingValues preparation feePerStage migrationFee
      minimumOutput = .ok (some plan)) :
    plan.stages.map SplitStagePlan.layerIndex =
        (locatedTransactions preparation.layers).map (·.1.1) ∧
      plan.layerCount = preparation.layers.length := by
  unfold finishPlan at h
  split_ifs at h
  · cases h
  · simp only [bind_eq_ok, pure_eq_ok, Option.some.injEq] at h
    obtain ⟨-, -, _, -, _, -, _, -, _, -, plan', hplan, rfl⟩ := h
    exact translatePreparationPlan_layers hplan

/-- The layers that the stages of a plan come from. -/
structure LayersOf (plan : PaddedDenominationPlan) (layers : Layers) : Prop where
  dense : Dense layers
  stages : plan.stages.map SplitStagePlan.layerIndex =
    (locatedTransactions layers).map (·.1.1)
  layerCount : plan.layerCount = layers.length

theorem planWithRefiner_layers {σ : Type} {refine : ℕ → σ → DenominationRefinement × σ}
    {S : PlannerSorts} {inputValues : List ℕ} {feePerStage migrationFee minimumOutput : ℕ}
    {rng : σ} {plan : PaddedDenominationPlan}
    (h : planPaddedDenominationsWithRefiner refine S inputValues feePerStage migrationFee
      minimumOutput rng = .ok (some plan)) : ∃ layers, LayersOf plan layers := by
  simp only [planPaddedDenominationsWithRefiner, bind_eq_ok] at h
  obtain ⟨context?, -, h⟩ := h
  split at h
  · cases h
  · simp only [bind_eq_ok, orError_eq_ok, checkedAdd_eq_some] at h
    obtain ⟨-, ⟨hfee, -⟩, final, hfinal, h⟩ := h
    obtain ⟨hvalid, -⟩ := searchLoop_settled hfee ⟨by simp, rfl, by simp⟩ hfinal
    obtain ⟨hstages, hcount⟩ := finishPlan_layers h
    rw [hvalid.funding] at h
    obtain ⟨-, ⟨_, -, hplan⟩, -⟩ := preparationForCrossings_eq_some.1
      (hvalid.affordable (finishPlan_outputs h).1)
    exact ⟨_, planPreparation_dense hplan, hstages, hcount⟩

theorem PlannedBy.layersOf {S : PlannerSorts} {inputValues : List ℕ}
    {feePerStage migrationFee minimumOutput : ℕ} {plan : PaddedDenominationPlan}
    (h : PlannedBy S inputValues feePerStage migrationFee minimumOutput plan) :
    ∃ layers, LayersOf plan layers := by
  cases h with
  | random policy nextU32 rng h => exact planWithRefiner_layers h
  | withoutRefinement h => exact planWithRefiner_layers h
  | forTargets targetValues h =>
    unfold planPaddedDenominationsForTargets at h
    split_ifs at h
    · cases h
    · simp only [bind_eq_ok] at h
      obtain ⟨-, -, -, -, context?, -, h⟩ := h
      split at h
      · cases h
      · simp only [bind_eq_ok] at h
        obtain ⟨trial, htrial, h⟩ := h
        split at h
        · cases h
        · simp only [bind_eq_ok] at h
          obtain ⟨-, -, -, -, h⟩ := h
          obtain ⟨hstages, hcount⟩ := finishPlan_layers h
          obtain ⟨-, ⟨_, -, hplan⟩, -⟩ := preparationForCrossings_eq_some.1 htrial
          exact ⟨_, planPreparation_dense hplan, hstages, hcount⟩

/-- The stages fill the layers of a plan. -/
theorem LayersOf.filled {plan : PaddedDenominationPlan} (h : LayersOf plan layers)
    (layerIndex : ℕ) :
    layerIndex ∈ plan.stages.map SplitStagePlan.layerIndex ↔ layerIndex < plan.layerCount := by
  rw [h.stages, h.layerCount, List.mem_map]
  constructor
  · rintro ⟨⟨⟨l, t⟩, tx⟩, hmem, rfl⟩
    obtain ⟨txs, htxs, -⟩ := mem_locatedTransactions.1 hmem
    exact (List.getElem?_eq_some_iff.1 htxs).1
  · intro hlt
    have hne : layers[layerIndex] ≠ [] := fun hempty =>
      h.dense (hempty ▸ List.getElem_mem hlt)
    obtain ⟨tx, hhead⟩ := List.exists_mem_of_ne_nil _ hne
    obtain ⟨t, ht⟩ := List.mem_iff_getElem?.1 hhead
    exact ⟨((layerIndex, t), tx), mem_locatedTransactions.2
      ⟨_, List.getElem?_eq_getElem hlt, ht⟩, rfl⟩

/-- The heights of the stages respect the layers, and no layer of a plan is missing. -/
theorem preparation_heights :
    (∀ (network : WalletNetwork) (preparationPolicy : PreparationTimingPolicy)
      (timingPolicy : MigrationTimingPolicy) (targetHeight confirmations : ℕ)
      (stageLayers heights : List ℕ)
      (rng : PreparationRng (preparationScheduleParametersForTransactionCount network timingPolicy
        stageLayers.length).2),
      plannedPreparationScheduledHeights network preparationPolicy timingPolicy targetHeight
        stageLayers confirmations rng = .ok heights →
      heights.length = stageLayers.length ∧ (∀ height ∈ heights, targetHeight - 1 ≤ height) ∧
        ∀ (stage stage' layer layer' height height' : ℕ),
          stageLayers[stage]? = some layer → stageLayers[stage']? = some layer' →
          layer < layer' → heights[stage]? = some height → heights[stage']? = some height' →
          height + confirmations ≤ height') ∧
    ∀ (S : PlannerSorts) (inputValues : List ℕ) (feePerStage migrationFee minimumOutput : ℕ)
      (plan : PaddedDenominationPlan),
      PlannedBy S inputValues feePerStage migrationFee minimumOutput plan →
      ∀ (network : WalletNetwork) (preparationPolicy : PreparationTimingPolicy)
        (timingPolicy : MigrationTimingPolicy) (targetHeight confirmations : ℕ)
        (rng : PreparationRng (preparationScheduleParametersForTransactionCount network
          timingPolicy (plan.stages.map SplitStagePlan.layerIndex).length).2),
        let heights := plannedPreparationScheduledHeights network preparationPolicy timingPolicy
          targetHeight (plan.stages.map SplitStagePlan.layerIndex) confirmations rng
        (∀ layerIndex, heights ≠ .error (missingLayer layerIndex)) ∧
          (targetHeight - 1 + (plan.stages.map SplitStagePlan.layerIndex).length *
            (preparationScheduleParametersForTransactionCount network timingPolicy
              (plan.stages.map SplitStagePlan.layerIndex).length).2 +
            plan.layerCount * confirmations < 2 ^ 32 → ∃ planned, heights = .ok planned) := by
  refine ⟨fun network policy timingPolicy targetHeight confirmations stageLayers heights rng h =>
    plannedPreparationScheduledHeights_ordered h, ?_⟩
  intro S inputValues feePerStage migrationFee minimumOutput plan hplanned network policy
    timingPolicy targetHeight confirmations rng
  obtain ⟨layers, hlayers⟩ := hplanned.layersOf
  exact plannedPreparationScheduledHeights_filled hlayers.filled rng

/-- Draws of two blocks, without shuffling. -/
def steadyRng : PreparationRng
    (preparationScheduleParametersForTransactionCount .main .standard [1, 0, 1].length).2 where
  shuffle _ := .none
  sampler := .ofAccepted (fun _ => 2) fun _ => by decide

/-- The first layer is at 102, the second at 107 and 109. -/
theorem preparation_heights_sample :
    [107, 102, 109].length = [1, 0, 1].length ∧ (∀ height ∈ [107, 102, 109], 101 - 1 ≤ height) ∧
      ∀ (stage stage' layer layer' height height' : ℕ),
        [1, 0, 1][stage]? = some layer → [1, 0, 1][stage']? = some layer' → layer < layer' →
        [107, 102, 109][stage]? = some height → [107, 102, 109][stage']? = some height' →
        height + 3 ≤ height' :=
  preparation_heights.1 .main .zip318Spaced .standard 101 3 [1, 0, 1] [107, 102, 109] steadyRng
    (by decide +kernel)

end VizorWallet.Migration
